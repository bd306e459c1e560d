import ScriptHost.Proofs.Output.Closure
import ScriptHost.Proofs.Output.Route

set_option autoImplicit false

namespace ScriptHost

open Run

variable {σ τ α β : Type}

structure Failure.ReachesHandler (f : Failure) : Prop where
  goesOn : f.chain.any isFinally = false
  stays : f.chain.findSome? exit? = none
  recovers : f.chain.findSome? fatal? = none
  isProper : f.chain.any isMisuse = false

namespace World

variable {w : World τ} {c : ContextId}

def handler (w : World τ) (c : ContextId) : Option Callback :=
  (w.context c).diagnostics.exceptionHandler

def setHandler (w : World τ) (c : ContextId) (k : Option Callback) : World τ :=
  w.updateContext c fun x => { x with diagnostics := { x.diagnostics with exceptionHandler := k } }

theorem handler_setHandler_none (w : World τ) (c : ContextId) :
    (w.setHandler c none).handler c = none := by
  unfold handler setHandler
  rw [context_updateContext]
  split
  next => rfl
  next unknown =>
    have fresh : w.context c = default :=
      w.contexts.get_of_not_has fun known => unknown ⟨rfl, known⟩
    rw [fresh]
    rfl

def height (w : World τ) (c : ContextId) : Nat := (w.output c).stack.length

theorem height_updateOutput (w : World τ) (c : ContextId) {f : Output → Output}
    (keeps : (f (w.output c)).stack = (w.output c).stack) :
    (w.updateOutput c f).height c = w.height c := by
  unfold height output updateOutput
  rw [context_updateContext]
  split
  next => exact congrArg List.length keeps
  next => rfl

theorem height_resize {b : BufferId} {below : List BufferId}
    (top : (w.output c).stack = b :: below) :
    (w.updateOutput c (·.resize below.length)).height c = below.length := by
  have known : w.contexts.has c := by
    refine Decidable.byContradiction fun unknown => ?_
    have fresh : w.context c = default := w.contexts.get_of_not_has unknown
    have nothing : (w.output c).stack = [] := congrArg (fun x => x.output.stack) fresh
    simp [nothing] at top
  rw [height, output_updateOutput known]
  simp [Output.resize, top]

end World

def Run.Returns (m : Run τ α) : Prop := ∀ w, ∃ a v, m w = (.ok a, v)

theorem Run.isClosed_returns (c : ContextId) :
    Run.IsClosed c fun α (m : Run τ α) => m.Returns where
  pure a w := ⟨a, w, rfl⟩
  bind first rest w := by
    obtain ⟨a, u, returned⟩ := first w
    obtain ⟨b, v, result⟩ := rest a u
    exact ⟨b, v, (bind_ok returned).trans result⟩
  context w := ⟨_, w, rfl⟩
  modifyStack _ _ w := ⟨(), _, Output.modifyStack_apply w c _⟩
  onSink f w := ⟨_, _, Output.onSink_apply w c f⟩

def Run.IsCalm (c : ContextId) (m : Run τ α) : Prop :=
  ∀ w, ∃ a v, m w = (.ok a, v) ∧ v.height c ≤ w.height c

theorem Run.isClosed_calm (c : ContextId) :
    Run.IsClosed c fun α (m : Run τ α) => Run.IsCalm c m where
  pure a w := ⟨a, w, rfl, Nat.le_refl _⟩
  bind first rest w := by
    obtain ⟨a, u, returned, lower⟩ := first w
    obtain ⟨b, v, result, lowest⟩ := rest a u
    exact ⟨b, v, (bind_ok returned).trans result, Nat.le_trans lowest lower⟩
  context w := ⟨_, w, rfl, Nat.le_refl _⟩
  modifyStack keeps _ w :=
    ⟨(), _, Output.modifyStack_apply w c _, Nat.le_of_eq (w.height_updateOutput c (keeps _))⟩
  onSink f w := ⟨_, _, Output.onSink_apply w c f, Nat.le_refl _⟩

structure Host.IsCalm (h : Host τ) (c : ContextId) : Prop where
  filterOutput : ∀ k chunk mode, Run.IsCalm c (h.filterOutput k c chunk mode)
  reportFatal : ∀ k e, (h.reportFatal k c e).Returns
  exit : ∀ status, (h.exit c status).Returns

theorem Run.IsCalm.returns {c : ContextId} {m : Run τ α} (calm : IsCalm c m) : m.Returns := by
  intro w
  obtain ⟨a, v, returned, -⟩ := calm w
  exact ⟨a, v, returned⟩

namespace Output

variable {h : Host τ} {c : ContextId} (calm : h.IsCalm c)
include calm

theorem stop_calm (w : World τ) : ∃ removed v, stop h c w = (.ok removed, v) ∧
    (removed.isSome → v.height c < w.height c) := by
  rw [stop, bind_ok (context_apply w c)]
  cases top : (w.context c).output.stack with
  | nil => exact ⟨none, w, rfl, nofun⟩
  | cons b below =>
    dsimp only
    rw [bind_ok (modifyStack_apply w c _)]
    obtain ⟨_, v, closed, lower⟩ := close_closed (isClosed_calm c) calm.filterOutput (.buffer b)
      (w.updateOutput c _)
    have start : w.height c = below.length + 1 := congrArg List.length top
    rw [World.height_resize top] at lower
    refine ⟨some b, v, (bind_ok closed).trans rfl, fun _ => by omega⟩

theorem stopAll_returns {rounds : Nat} {w : World τ} (enough : w.height c < rounds) :
    ∃ v, stopAll h c rounds w = (.ok (), v) := by
  induction rounds generalizing w with
  | zero => exact absurd enough (Nat.not_lt_zero _)
  | succ rounds ih =>
    obtain ⟨removed, v, stopped, fewer⟩ := stop_calm calm w
    rw [stopAll, bind_ok stopped]
    cases removed with
    | none => exact ⟨v, rfl⟩
    | some b =>
      have lower := fewer rfl
      exact ih (by omega)

theorem flushAll_returns (w : World τ) : ∃ v, flushAll h c w = (.ok (), v) := by
  rw [flushAll, bind_ok (context_apply w c)]
  have enough : w.height c < (w.context c).output.stack.length + 1 + h.patience := by
    unfold World.height World.output
    omega
  obtain ⟨u, stopped⟩ := stopAll_returns calm enough
  obtain ⟨_, v, closed, -⟩ := close_closed (isClosed_calm c) calm.filterOutput .root u
  rw [bind_ok stopped, bind_ok closed]
  exact ⟨v, rfl⟩

end Output

namespace Diagnostics

variable {h : Host τ} {c : ContextId}

theorem reportFatal_returns (calm : h.IsCalm c) (e : Fatal) : (reportFatal h c e).Returns :=
  reportFatal_closed (isClosed_returns c) (fun k chunk mode => (calm.filterOutput k chunk mode).returns)
    (fun k e => calm.reportFatal k e) e

end Diagnostics

namespace Boundary

variable {h : Host τ} {c : ContextId} {w u v : World τ} {f e : Failure} {k : Callback}

def settle (h : Host τ) (c : ContextId) (e : Failure) : Run τ Unit :=
  if e.chain.any Failure.isFinally then return
  else match e.chain.findSome? Failure.exit? with
    | some (status, _) => do
      Output.flushAll h c
      h.exit c status
    | none => match e.chain.findSome? Failure.fatal? with
      | some fatal => Diagnostics.reportFatal h c fatal
      | none => reportUncaught h c e

theorem settle_returns (calm : h.IsCalm c) (e : Failure) (w : World τ) :
    ∃ v, settle h c e w = (.ok (), v) := by
  have reported (fatal : Fatal) (w : World τ) :
      ∃ v, Diagnostics.reportFatal h c fatal w = (.ok (), v) := by
    obtain ⟨_, v, reported⟩ := Diagnostics.reportFatal_returns calm fatal w
    exact ⟨v, reported⟩
  unfold settle
  split
  next => exact ⟨w, rfl⟩
  cases e.chain.findSome? Failure.exit? with
  | some exit =>
    obtain ⟨u, flushed⟩ := Output.flushAll_returns calm w
    obtain ⟨_, v, exited⟩ := calm.exit exit.1 u
    exact ⟨v, (bind_ok flushed).trans exited⟩
  | none =>
  cases e.chain.findSome? Failure.fatal? with
  | some fatal => exact reported fatal w
  | none =>
  dsimp only [reportUncaught]
  cases e.chain.findSome? Failure.exception? with
  | some raised => exact reported _ w
  | none => exact reported _ w

theorem guard_ok {body : Run τ Unit} (returned : body w = (.ok (), v)) :
    guard body w = (.ok none, v) := by
  rw [guard, returned]

theorem guard_failure {body : Run τ Unit} (raised : body w = (.error (.failure e), v))
    (recovers : e.isRecoverable) : guard body w = (.ok (some e), v) := by
  rw [guard, raised]
  exact if_pos recovers

theorem guard_raised {body : Run τ Unit} (stopped : guard body w = (.ok (some e), v)) :
    body w = (.error (.failure e), v) ∧ e.isRecoverable := by
  unfold guard at stopped
  split at stopped
  next => cases stopped
  next result =>
    split at stopped
    next recovers => cases stopped; exact ⟨result, recovers⟩
    next => cases stopped
  next => cases stopped

def Passes (signal : Signal) : Prop := ∀ e, signal = .failure e → e.isRecoverable = false

theorem guard_passes {body : Run τ Unit} {signal : Signal} (raised : body w = (.error signal, v))
    (passes : Passes signal) : guard body w = (.error signal, v) := by
  rw [guard, raised]
  cases signal with
  | failure e => exact if_neg (by simp [passes e rfl])
  | value => rfl
  | exhausted => rfl

theorem classify_settles (proper : e.chain.any Failure.isMisuse = false)
    (unhandled : w.handler c = none) (settled : settle h c e w = (.ok (), v)) (rounds : Nat) :
    classify h c (rounds + 1) e w = (.ok true, v) := by
  -- both functions ask in this order: a pending finally block, an exit, a fatal error, the rest
  unfold settle at settled
  unfold classify
  split at settled
  next pending =>
    cases settled
    rw [if_pos pending]
    rfl
  next goesOn =>
  rw [if_neg goesOn]
  cases exits : e.chain.findSome? Failure.exit? with
  | some exit =>
    rw [exits] at settled
    obtain ⟨_, u, flushed, exited⟩ := of_bind_ok settled
    exact (bind_ok flushed).trans (bind_ok exited)
  | none =>
  rw [exits] at settled
  cases found : e.chain.findSome? Failure.fatal? with
  | some fatal =>
    rw [found] at settled
    exact bind_ok settled
  | none =>
  rw [found] at settled
  dsimp only
  rw [proper, if_neg Bool.false_ne_true, bind_ok (context_apply w c),
    show (w.context c).diagnostics.exceptionHandler = none from unhandled]
  exact (bind_ok (guard_ok settled)).trans (bind_ok (context_apply v c))

def review (h : Host τ) (c : ContextId) (rounds : Nat) (raised : Option Failure) : Run τ Bool := do
  match raised, (← Run.context c).diagnostics.exceptionHandler with
  | none, _ => return true
  | some _, none => return false
  | some e, some saved =>
    setExceptionHandler c none
    Run.ensuring (classify h c rounds e) (setExceptionHandler c (some saved))

theorem classify_reaches (reaches : f.ReachesHandler) (installed : w.handler c = some k)
    (rounds : Nat) : classify h c (rounds + 1) f w =
      (guard (h.handleException k c f) >>= review h c rounds) w := by
  rw [classify, reaches.goesOn, reaches.stays, reaches.recovers, reaches.isProper]
  refine (bind_ok (context_apply w c)).trans ?_
  rw [show (w.context c).diagnostics.exceptionHandler = some k from installed]
  rfl

theorem review_cleared (cleared : v.handler c = none) (rounds : Nat) (e : Failure) :
    review h c rounds (some e) v = (.ok false, v) := by
  rw [review, bind_ok (context_apply v c),
    show (v.context c).diagnostics.exceptionHandler = none from cleared]
  rfl

theorem review_settles {saved : Callback} (kept : v.handler c = some saved)
    (proper : e.chain.any Failure.isMisuse = false)
    (settled : settle h c e (v.setHandler c none) = (.ok (), u)) (rounds : Nat) :
    review h c (rounds + 1) (some e) v = (.ok true, u.setHandler c (some saved)) := by
  rw [review, bind_ok (context_apply v c),
    show (v.context c).diagnostics.exceptionHandler = some saved from kept]
  have classified := classify_settles proper (v.handler_setHandler_none c) settled rounds
  have withdrawn : setExceptionHandler c none v = (.ok (), v.setHandler c none) := rfl
  refine (bind_ok withdrawn).trans ?_
  rw [ensuring, classified]
  rfl

end Boundary

def Host.handlingBy (h : Host τ) (g : Callback → ContextId → Failure → Run τ Unit) : Host τ :=
  { h with handleException := g }

section Forgetting

variable (h : Host τ) (g : Callback → ContextId → Failure → Run τ Unit) (c : ContextId)

namespace Output

theorem deliver_handlingBy (route : List BufferId) :
    deliver (h.handlingBy g) c route = deliver h c route := by
  funext text
  induction route generalizing text with
  | nil => rfl
  | cons b below ih =>
    simp only [deliver, funext ih]
    rfl

theorem echoBytes_handlingBy : echoBytes (h.handlingBy g) c = echoBytes h c := by
  funext text
  simp only [echoBytes, write, writeTo, deliver_handlingBy]

theorem close_handlingBy (level : Level) : close (h.handlingBy g) c level = close h c level := by
  cases level with
  | root => rfl
  | buffer b =>
    simp only [close, drainBuffer, deliver_handlingBy]
    rfl

theorem stopAll_handlingBy (rounds : Nat) :
    stopAll (h.handlingBy g) c rounds = stopAll h c rounds := by
  induction rounds with
  | zero => rfl
  | succ rounds ih => simp only [stopAll, stop, close_handlingBy, ih]

theorem flushAll_handlingBy : flushAll (h.handlingBy g) c = flushAll h c := by
  simp only [flushAll, stopAll_handlingBy, close_handlingBy]
  rfl

end Output

theorem Diagnostics.reportFatal_handlingBy (e : Fatal) :
    reportFatal (h.handlingBy g) c e = reportFatal h c e := by
  simp only [reportFatal, reportFatalLine, Output.echoBytes_handlingBy]
  rfl

theorem Boundary.settle_handlingBy (e : Failure) :
    settle (h.handlingBy g) c e = settle h c e := by
  simp only [settle, reportUncaught, Output.flushAll_handlingBy, Diagnostics.reportFatal_handlingBy]
  rfl

end Forgetting

namespace Boundary

theorem review_handlingBy {h : Host τ} {c : ContextId} (calm : h.IsCalm c)
    (g : Callback → ContextId → Failure → Run τ Unit) {raised : Option Failure}
    (proper : ∀ e, raised = some e → e.chain.any Failure.isMisuse = false) (rounds : Nat)
    (v : World τ) :
    review (h.handlingBy g) c (rounds + 1) raised v = review h c (rounds + 1) raised v := by
  cases raised with
  | none => rfl
  | some e =>
    cases slot : v.handler c with
    | none => rw [review_cleared slot, review_cleared slot]
    | some saved =>
      -- The slot is empty while the failure is settled, so that neither handler is asked.
      obtain ⟨u, settled⟩ := settle_returns calm e (v.setHandler c none)
      rw [review_settles slot (proper e rfl) settled,
        review_settles slot (proper e rfl) ((congrFun (settle_handlingBy h g c e) _).trans settled)]

/-- The exception handler is called once. A failure of its own is settled as if there were no
handler, and then dealt with, if a handler is still installed when the failure unwinds; otherwise it
is dropped, and the first failure counts as not dealt with. -/
theorem catchUncaught_handler (h : Host τ) (c : ContextId) (patient : 1 < h.patience)
    (calm : h.IsCalm c) {f : Failure} (reaches : f.ReachesHandler) {w : World τ} {k : Callback}
    (installed : w.handler c = some k) :
    (∀ v, h.handleException k c f w = (.ok (), v) → catchUncaught h c f w = (.ok true, v)) ∧
    (∀ e v, h.handleException k c f w = (.error (.failure e), v) → e.isRecoverable →
      match v.handler c with
      | some saved => ∃ u, settle h c e (v.setHandler c none) = (.ok (), u) ∧
          catchUncaught h c f w = (.ok true, u.setHandler c (some saved))
      | none => catchUncaught h c f w = (.ok false, v)) ∧
    (∀ signal v, h.handleException k c f w = (.error signal, v) → Passes signal →
      catchUncaught h c f w = (.error signal, v)) ∧
    ∀ g, g k c f w = h.handleException k c f w →
      catchUncaught (h.handlingBy g) c f w = catchUncaught h c f w := by
  -- two rounds of patience: one for the failure, one for a failure of the handler
  obtain ⟨rounds, patience⟩ : ∃ rounds, h.patience = rounds + 1 + 1 :=
    ⟨h.patience - 2, by omega⟩
  have proper {e : Failure} (recovers : e.isRecoverable) :
      e.chain.any Failure.isMisuse = false := by
    rw [Failure.isRecoverable, Bool.and_eq_true, Bool.not_eq_true'] at recovers
    exact recovers.1
  have opens : catchUncaught h c f w =
      (guard (h.handleException k c f) >>= review h c (rounds + 1)) w := by
    rw [catchUncaught, patience]
    exact classify_reaches reaches installed _
  refine ⟨fun v returned => ?_, fun e v raised recovers => ?_, fun signal v raised passes => ?_,
    fun g same => ?_⟩
  · rw [opens, bind_ok (guard_ok returned)]
    rfl
  · rw [opens, bind_ok (guard_failure raised recovers)]
    cases slot : v.handler c with
    | none => exact review_cleared slot _ e
    | some saved =>
      obtain ⟨u, settled⟩ := settle_returns calm e (v.setHandler c none)
      exact ⟨u, settled, review_settles slot (proper recovers) settled rounds⟩
  · rw [opens, bind_apply, guard_passes raised passes]
  · have opens' : catchUncaught (h.handlingBy g) c f w =
        (guard (g k c f) >>= review (h.handlingBy g) c (rounds + 1)) w := by
      rw [catchUncaught, show (h.handlingBy g).patience = rounds + 1 + 1 from patience]
      exact classify_reaches reaches installed _
    have guarded : guard (g k c f) w = guard (h.handleException k c f) w := by
      rw [guard, guard, same]
    rw [opens, opens', bind_apply, bind_apply, guarded]
    rcases ended : guard (h.handleException k c f) w with ⟨outcome, v⟩
    cases outcome with
    | error => rfl
    | ok raised =>
      refine review_handlingBy calm g (fun e same => proper ?_) rounds v
      exact (guard_raised (same ▸ ended)).2

def quitting (withdraws : Bool) : Host (List Int) :=
  { Host.idle with
    handleException := fun _ c _ => do
      if withdraws then setExceptionHandler c none
      Run.fail (.exit 3 .null)
    exit := fun _ status => modify fun w => { w with embedder := w.embedder ++ [status] } }

theorem quitting_isCalm (withdraws : Bool) (c : ContextId) : (quitting withdraws).IsCalm c where
  filterOutput _ chunk _ := (isClosed_calm c).pure chunk
  reportFatal _ _ w := ⟨(), w, rfl⟩
  exit _ _ := ⟨(), _, rfl⟩

def handled : World (List Int) where
  contexts := Pool.empty.add
    { (default : Context) with
      diagnostics := { Diagnostics.make .silent with exceptionHandler := some ⟨0⟩ } }
  files := FileTree.make "/"
  observers := standardObservers
  embedder := []

theorem catchUncaught_handler_exits :
    (1 < (quitting false).patience ∧ (quitting false).IsCalm ⟨0⟩ ∧
      Failure.ReachesHandler (.plain "x") ∧ handled.handler ⟨0⟩ = some ⟨0⟩) ∧
    ∃ u, catchUncaught (quitting false) ⟨0⟩ (.plain "x") handled = (.ok true, u) ∧
      u.handler ⟨0⟩ = some ⟨0⟩ ∧ u.embedder = [3] := by
  have patient : 1 < (quitting false).patience := by decide
  have calm := quitting_isCalm false ⟨0⟩
  have reaches : Failure.ReachesHandler (.plain "x") := ⟨rfl, rfl, rfl, rfl⟩
  have installed : handled.handler ⟨0⟩ = some ⟨0⟩ := rfl
  obtain ⟨-, raises, -, -⟩ := catchUncaught_handler _ _ patient calm reaches installed
  obtain ⟨u, settled, caught⟩ := raises (.exit 3 .null) handled rfl rfl
  refine ⟨⟨patient, calm, reaches, installed⟩, _, caught, ?_⟩
  cases settled
  exact ⟨rfl, rfl⟩

theorem exit_of_withdrawn_handler_dropped : handled.handler ⟨0⟩ = some ⟨0⟩ ∧ ∃ v,
    (quitting true).handleException ⟨0⟩ ⟨0⟩ (.plain "x") handled =
      (.error (.failure (.exit 3 .null)), v) ∧
    catchUncaught (quitting true) ⟨0⟩ (.plain "x") handled = (.ok false, v) ∧ v.embedder = [] ∧
    ∃ u, settle (quitting true) ⟨0⟩ (.exit 3 .null) v = (.ok (), u) ∧ u.embedder = [3] := by
  refine ⟨rfl, handled.setHandler ⟨0⟩ none, rfl, rfl, rfl, ?_⟩
  obtain ⟨u, settled⟩ := settle_returns (quitting_isCalm true ⟨0⟩) (.exit 3 .null)
    (handled.setHandler ⟨0⟩ none)
  refine ⟨u, settled, ?_⟩
  cases settled
  rfl

end Boundary

end ScriptHost
