import ScriptHost.Exceptions
import ScriptHost.Proofs.Boundary.Classification

set_option autoImplicit false

namespace ScriptHost

open Run

variable {τ : Type}

def ExceptionOf.history (e : Exception) : List Failure := e.previous.elim [] Failure.chain

def Failure.isSignal : Failure → Bool
  | .finally | .exit .. | .fatal _ => true
  | _ => false

theorem Failure.chain_exception (e : Exception) :
    (Failure.exception e).chain = .exception e :: e.history := by
  obtain ⟨thrown, message, trace, frames, payload, previous⟩ := e
  cases previous with
  | none => simp [chain, ExceptionOf.history]
  | some p => simp [chain, ExceptionOf.history]

theorem Failure.any_isSignal (f : Failure) : f.chain.any isSignal = (f.chain.any isFinally ||
    (f.chain.findSome? exit?).isSome || (f.chain.findSome? fatal?).isSome) := by
  induction f.chain with
  | nil => rfl
  | cons g rest ih =>
    rw [List.any_cons, ih]
    cases g <;> simp [List.findSome?_cons, isSignal, isFinally, exit?, fatal?]

theorem Failure.reachesHandler_iff (f : Failure) :
    f.ReachesHandler ↔ f.chain.any isSignal = false ∧ f.chain.any isMisuse = false := by
  rw [any_isSignal]
  simp only [Bool.or_eq_false_iff, Option.isSome_eq_false_iff, Option.isNone_iff_eq_none]
  constructor
  next => exact fun reaches => ⟨⟨⟨reaches.goesOn, reaches.stays⟩, reaches.recovers⟩, reaches.isProper⟩
  next => exact fun ⟨⟨⟨goesOn, stays⟩, recovers⟩, isProper⟩ => ⟨goesOn, stays, recovers, isProper⟩

theorem Failure.exception_reachesHandler (e : Exception) : (Failure.exception e).ReachesHandler ↔
    e.history.any isSignal = false ∧ e.history.any isMisuse = false := by
  simp [reachesHandler_iff, chain_exception, isSignal, isMisuse]

theorem Failure.isRecoverable_exception (e : Exception) :
    (Failure.exception e).isRecoverable = e.history.all fun g => !g.isMisuse && !g.isFault := by
  rw [isRecoverable, chain_exception, Bool.eq_iff_iff]
  simp [isMisuse, isFault, forall_and]

namespace World

variable {w : World τ} {c : ContextId}

def unsilenced (w : World τ) (c : ContextId) : World τ :=
  w.updateContext c fun x => { x with diagnostics := x.diagnostics.clearSilent }

end World

namespace Boundary

variable {h : Host τ} {c : ContextId} {w v : World τ} {e : Exception} {p : Failure}

theorem guard_throwException (c : ContextId) (e : Exception) (w : World τ) :
    guard (Exceptions.throwException c e) w =
      if (Failure.exception e).isRecoverable then (.ok (some (.exception e)), w.unsilenced c)
      else (.error (.failure (.exception e)), w.unsilenced c) := rfl

theorem classify_signal (signal : p.chain.any Failure.isSignal) (rounds : Nat) :
    classify h c (rounds + 1) p = do settle h c p; return true := by
  rw [Failure.any_isSignal] at signal
  unfold classify settle
  split
  next => rfl
  next goesOn =>
  cases stays : p.chain.findSome? Failure.exit? with
  | some exit => simp
  | none =>
  cases recovers : p.chain.findSome? Failure.fatal? with
  | some fatal => rfl
  | none => simp [goesOn, stays, recovers] at signal

theorem classify_misuse (quiet : p.chain.any Failure.isSignal = false)
    (misuse : p.chain.any Failure.isMisuse) (rounds : Nat) :
    classify h c (rounds + 1) p = return false := by
  rw [Failure.any_isSignal] at quiet
  simp only [Bool.or_eq_false_iff, Option.isSome_eq_false_iff, Option.isNone_iff_eq_none] at quiet
  obtain ⟨⟨goesOn, stays⟩, recovers⟩ := quiet
  simp [classify, goesOn, stays, recovers, misuse]

theorem settle_exception (followed : e.previous = some p) (signal : p.chain.any Failure.isSignal) :
    settle h c (.exception e) = settle h c p := by
  -- the exception itself, in front of the chain of `p`, is no signal
  have history : e.history = p.chain := by simp [ExceptionOf.history, followed]
  rw [Failure.any_isSignal] at signal
  simp only [settle, Failure.chain_exception, history, List.any_cons, List.findSome?_cons,
    Failure.isFinally, Failure.exit?, Failure.fatal?, Bool.false_or]
  split
  next => rfl
  next goesOn =>
  cases stays : p.chain.findSome? Failure.exit? with
  | some exit => rfl
  | none =>
  cases recovers : p.chain.findSome? Failure.fatal? with
  | some fatal => rfl
  | none => simp [goesOn, stays, recovers] at signal

/-- The exception handler gets an exception unless there is a signal or a misuse in the history. With
a signal there, what the exception followed upon is settled in its place, whatever the handler. -/
theorem catchUncaught_exception (h : Host τ) (c : ContextId) (patient : 0 < h.patience)
    (calm : h.IsCalm c) (e : Exception) :
    (∀ w : World τ, guard (Exceptions.throwException c e) w =
      if e.history.all fun g => !g.isMisuse && !g.isFault then
        (.ok (some (.exception e)), w.unsilenced c)
      else (.error (.failure (.exception e)), w.unsilenced c)) ∧
    (e.history.any Failure.isSignal = false → e.history.any Failure.isMisuse = false →
      ∀ (w v : World τ) (k : Callback), w.handler c = some k →
        h.handleException k c (.exception e) w = (.ok (), v) →
          catchUncaught h c (.exception e) w = (.ok true, v)) ∧
    (∀ p, e.previous = some p → p.chain.any Failure.isSignal →
      ∀ w, ∃ v, settle h c p w = (.ok (), v) ∧
        ∀ g, catchUncaught (h.handlingBy g) c (.exception e) w = (.ok true, v)) ∧
    (e.history.any Failure.isSignal = false → e.history.any Failure.isMisuse →
      catchUncaught h c (.exception e) = return false) := by
  obtain ⟨rounds, patience⟩ : ∃ rounds, h.patience = rounds + 1 := ⟨h.patience - 1, by omega⟩
  refine ⟨fun w => ?_, fun quiet proper w v k installed returned => ?_,
    fun p followed signal w => ?_, fun quiet misuse => ?_⟩
  · rw [guard_throwException, Failure.isRecoverable_exception]
  · have reaches := (Failure.exception_reachesHandler e).2 ⟨quiet, proper⟩
    rw [catchUncaught, patience, classify_reaches reaches installed, bind_ok (guard_ok returned)]
    rfl
  · obtain ⟨v, settled⟩ := settle_returns calm p w
    refine ⟨v, settled, fun g => ?_⟩
    have included : (Failure.exception e).chain.any Failure.isSignal := by
      simpa [Failure.chain_exception, ExceptionOf.history, followed, Failure.isSignal] using signal
    rw [catchUncaught, show (h.handlingBy g).patience = rounds + 1 from patience,
      classify_signal included, settle_handlingBy, settle_exception followed signal]
    exact bind_ok settled
  · rw [catchUncaught, patience]
    apply classify_misuse
    · simpa [Failure.chain_exception, Failure.isSignal] using quiet
    · simpa [Failure.chain_exception, Failure.isMisuse] using misuse

def noting : Host (List Int) :=
  (quitting false).handlingBy fun _ _ _ => modify fun w => { w with embedder := w.embedder ++ [0] }

theorem noting_isCalm (c : ContextId) : noting.IsCalm c where
  filterOutput := (quitting_isCalm false c).filterOutput
  reportFatal := (quitting_isCalm false c).reportFatal
  exit := (quitting_isCalm false c).exit

def following (p : Failure) : Exception := ⟨none, "x", ⟨[], 0, 0⟩, [], none, some p⟩

theorem catchUncaught_exception_wrapped :
    (0 < noting.patience ∧ noting.IsCalm ⟨0⟩ ∧ handled.handler ⟨0⟩ = some ⟨0⟩) ∧
    let e := following (.within "y" (some (.exception (following (.plain "z")))))
    ∃ v, guard (Exceptions.throwException ⟨0⟩ e) handled = (.ok (some (.exception e)), v) ∧
      ∃ u, catchUncaught noting ⟨0⟩ (.exception e) v = (.ok true, u) ∧ u.embedder = [0] := by
  have patient : 0 < noting.patience := by decide
  have calm := noting_isCalm ⟨0⟩
  refine ⟨⟨patient, calm, rfl⟩, ?_⟩
  intro e
  obtain ⟨guarded, caught, -, -⟩ := catchUncaught_exception noting ⟨0⟩ patient calm e
  have quiet : e.history.any Failure.isSignal = false := by decide
  have proper : e.history.any Failure.isMisuse = false := by decide
  exact ⟨_, guarded handled, _, caught quiet proper _ _ ⟨0⟩ rfl rfl, rfl⟩

theorem exception_after_signal_unhandled : handled.handler ⟨0⟩ = some ⟨0⟩ ∧
    ∀ p ∈ [Failure.exit 3 .null, .finally], ∃ v,
      guard (Exceptions.throwException ⟨0⟩ (following p)) handled =
        (.ok (some (.exception (following p))), v) ∧
      (∃ u, noting.handleException ⟨0⟩ ⟨0⟩ (.exception (following p)) v = (.ok (), u) ∧
        u.embedder = [0]) ∧
      ∃ u, catchUncaught noting ⟨0⟩ (.exception (following p)) v = (.ok true, u) ∧
        u.embedder = if p.isFinally then [] else [3] := by
  refine ⟨rfl, fun p member => ?_⟩
  simp only [List.mem_cons, List.not_mem_nil, or_false] at member
  rcases member with rfl | rfl
  · exact ⟨_, rfl, ⟨_, rfl, rfl⟩, _, rfl, rfl⟩
  · exact ⟨_, rfl, ⟨_, rfl, rfl⟩, _, rfl, rfl⟩

end Boundary

end ScriptHost
