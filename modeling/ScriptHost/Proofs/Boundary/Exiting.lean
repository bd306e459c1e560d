import ScriptHost.Proofs.Boundary.History
import ScriptHost.Proofs.Lifecycle.Shutdown

set_option autoImplicit false

namespace ScriptHost

open Run

variable {σ α β : Type}

def Event.concerns (asks : Call → Bool) (event : Event) : Prop :=
  ∀ call, event.call? = some call → asks call

structure Run.Asks (c : ContextId) (asks : Call → Bool) (m : Run (Ledger σ) α) (w : Recorded σ) :
    Prop where
  course : Course [c] w (m w).2
  calls : ∀ e ∈ w.direct (m w).2, e.event.concerns asks

namespace Run.Asks

variable {c : ContextId} {asks : Call → Bool} {w : Recorded σ}

theorem of_silent {m : Run (Ledger σ) α} (course : Course [c] w (m w).2)
    (journal : (m w).2.embedder.journal = w.embedder.journal) : m.Asks c asks w where
  course := course
  calls := by simp [World.direct_of_same journal]

theorem bind {m : Run (Ledger σ) α} {f : α → Run (Ledger σ) β} (ready : w.Ready [c] (some c))
    (first : m.Asks c asks w)
    (rest : ∀ a v, m w = (.ok a, v) → v.Ready [c] (some c) → (f a).Asks c asks v) :
    (m >>= f).Asks c asks w := by
  obtain ⟨course, calls⟩ := first
  rcases result : m w with ⟨signal | a, v⟩ <;> rw [result] at course calls
  · have whole : (m >>= f) w = (.error signal, v) := by rw [bind_apply, result]
    constructor <;> rw [whole]
    · exact course
    · exact calls
  · obtain ⟨course', calls'⟩ := rest a v result (course.ready ready)
    constructor <;> rw [bind_ok result]
    · exact course.trans course'
    · rw [course.direct_trans course']
      exact List.forall_mem_append.2 ⟨calls, calls'⟩

theorem answer {h : Host (Ledger σ)} (nests : h.Nests) (ready : w.Ready [c] (some c)) (call : Call)
    (plain : call.isPlain) (asked : asks call) : (h.answer call).Asks c asks w := by
  have course := nests.follows.answer call plain [c] w ready
  obtain ⟨outcome, v, answered, -, direct⟩ := nests.answered call ready
  refine ⟨course, ?_⟩
  rw [answered, direct]
  intro e member call' same
  rw [Event.call?_of_pair member] at same
  cases same
  exact asked

end Run.Asks

theorem Run.isClosed_asks (c : ContextId) (asks : Call → Bool) :
    Run.IsClosed c fun α (m : Run (Ledger σ) α) =>
      ∀ w : Recorded σ, w.Ready [c] (some c) → m.Asks c asks w where
  pure _ w _ := .of_silent (.still w) rfl
  bind first rest w ready := .bind ready (first w ready) fun a v _ later => rest a v later
  context w _ := .of_silent (.still w) rfl
  modifyStack _ becomes w ready :=
    .of_silent (.change (.adjust w c _ (fun x => ⟨rfl, rfl, rfl, becomes x.output, .same, List.prefix_rfl⟩)
      (ready.acts c rfl))) rfl
  onSink f w ready := .of_silent (Output.onSink_follows c f _ w ready) rfl

namespace Output

variable {c : ContextId} {h : Host (Ledger σ)} (nests : h.Nests) {w : Recorded σ}
include nests

theorem close_asks (level : Level) (ready : w.Ready [c] (some c)) :
    (close h c level).Asks c Call.isFilter w :=
  close_closed (Run.isClosed_asks c Call.isFilter)
    (fun k chunk mode _ ready => .answer nests ready (.filterOutput k c chunk mode) rfl rfl) level w
    ready

theorem stopAll_asks (rounds : Nat) (ready : w.Ready [c] (some c)) :
    (stopAll h c rounds).Asks c Call.isFilter w := by
  induction rounds generalizing w with
  | zero => exact .of_silent (.still w) rfl
  | succ rounds ih =>
    refine .bind ready ?stopped fun removed v _ ready => ?_
    case stopped =>
      refine .bind ready (.of_silent (.still w) rfl) fun x v _ ready => ?_
      split
      next => exact .of_silent (.still v) rfl
      next b below _ =>
        refine .bind ready (.of_silent (.change (.adjust v c _ (fun x =>
          ⟨rfl, rfl, rfl, .resized below.length, .same, List.prefix_rfl⟩) (ready.acts c rfl))) rfl)
          fun _ u _ ready => ?_
        exact .bind ready (close_asks nests _ ready) fun _ u _ _ => .of_silent (.still u) rfl
    cases removed with
    | none => exact .of_silent (.still v) rfl
    | some b => exact ih ready

theorem flushAll_asks (ready : w.Ready [c] (some c)) : (flushAll h c).Asks c Call.isFilter w := by
  refine .bind ready (.of_silent (.still w) rfl) fun x v _ ready => ?_
  refine .bind ready (stopAll_asks nests _ ready) fun _ u _ ready => ?_
  exact .bind ready (close_asks nests .root ready) fun _ u _ _ => .of_silent (.still u) rfl

end Output

namespace World

inductive Exits (h : Host (Ledger σ)) (c : ContextId) (status : Int) (w : Recorded σ) :
    Except Signal Unit → Recorded σ → Prop
  | stuck (signal : Signal) (v : Recorded σ) (flushed : Output.flushAll h c w = (.error signal, v))
      (filters : ∀ e ∈ w.direct v, e.event.concerns Call.isFilter) :
      Exits h c status w (.error signal) v
  | called (v v' : Recorded σ) (outcome : Except Signal Unit)
      (flushed : Output.flushAll h c w = (.ok (), v))
      (filters : ∀ e ∈ w.direct v, e.event.concerns Call.isFilter)
      (stack : (v.output c).stack = []) (rootClosed : (v.output c).isRootClosed)
      (answered : h.exit c status v = (outcome, v'.note (.answered (.exit c status) outcome)))
      (whole : w.direct (v'.note (.answered (.exit c status) outcome)) = w.direct v ++
        [⟨.called (.exit c status), w.embedder.running, v.unrecorded⟩,
          ⟨.answered (.exit c status) outcome, w.embedder.running, v'.unrecorded⟩]) :
      Exits h c status w outcome (v'.note (.answered (.exit c status) outcome))

end World

def Failure.ExitsWith (f : Failure) (status : Int) : Prop :=
  ∃ payload, f.chain.findSome? exit? = some (status, payload)

namespace Boundary

section Plain

variable {τ : Type} {h : Host τ} {c : ContextId} {w v x : World τ} {f e : Failure} {status : Int}
  {outcome : Except Signal Unit} {body : Run τ Unit}

def leave (h : Host τ) (c : ContextId) (status : Int) : Run τ Unit := do
  Output.flushAll h c
  h.exit c status

theorem classify_exit (exits : f.ExitsWith status) (rounds : Nat) :
    classify h c (rounds + 1) f = do leave h c status; return true := by
  obtain ⟨payload, exits⟩ := exits
  have goesOn := f.goesOn_of_exit exits
  have signal : f.chain.any Failure.isSignal := by
    rw [Failure.any_isSignal, exits]
    simp
  rw [classify_signal signal, settle, goesOn, exits]
  rfl

theorem classify_leaves (exits : f.ExitsWith status) (left : leave h c status v = (outcome, x))
    (rounds : Nat) : classify h c (rounds + 1) f v = (outcome.map fun _ => true, x) := by
  rw [classify_exit exits, bind_apply, left]
  cases outcome <;> rfl

theorem execute_of_caught (raised : body w = (.error (.failure f), v)) (recovers : f.isRecoverable)
    {caught : Except Signal Bool} (dealt : catchUncaught h c f v = (caught, x)) :
    execute h c body w = (caught.map fun dealt => if dealt then none else some f, x) := by
  rw [execute, bind_ok (guard_failure raised recovers)]
  dsimp only
  rw [bind_apply, dealt]
  cases caught <;> rfl

theorem execute_leaves (patient : 0 < h.patience) (raised : body w = (.error (.failure f), v))
    (recovers : f.isRecoverable) (exits : f.ExitsWith status)
    (left : leave h c status v = (outcome, x)) :
    execute h c body w = (outcome.map fun _ => none, x) := by
  obtain ⟨rounds, patience⟩ : ∃ rounds, h.patience = rounds + 1 := ⟨h.patience - 1, by omega⟩
  have caught : catchUncaught h c f v = (outcome.map fun _ => true, x) := by
    rw [catchUncaught, patience]
    exact classify_leaves exits left rounds
  rw [execute_of_caught raised recovers caught]
  cases outcome <;> rfl

theorem catchUncaught_leaves (patient : 1 < h.patience) (reaches : f.ReachesHandler) {k saved : Callback}
    (installed : w.handler c = some k) (raised : h.handleException k c f w = (.error (.failure e), v))
    (recovers : e.isRecoverable) (exits : e.ExitsWith status) (kept : v.handler c = some saved)
    (left : leave h c status (v.setHandler c none) = (outcome, x)) :
    catchUncaught h c f w = (outcome.map fun _ => true, x.setHandler c (some saved)) := by
  obtain ⟨rounds, patience⟩ : ∃ rounds, h.patience = rounds + 1 + 1 := ⟨h.patience - 2, by omega⟩
  have slot : (v.context c).diagnostics.exceptionHandler = some saved := kept
  have withdrawn : setExceptionHandler c none v = (.ok (), v.setHandler c none) := rfl
  rw [catchUncaught, patience, classify_reaches reaches installed,
    bind_ok (guard_failure raised recovers), review, bind_ok (context_apply v c), slot]
  refine (bind_ok withdrawn).trans ?_
  rw [ensuring, classify_leaves exits left]
  rfl

theorem catchUncaught_drops (patient : 0 < h.patience) (reaches : f.ReachesHandler) {k : Callback}
    (installed : w.handler c = some k) (raised : h.handleException k c f w = (.error (.failure e), v))
    (recovers : e.isRecoverable) (cleared : v.handler c = none) :
    catchUncaught h c f w = (.ok false, v) := by
  obtain ⟨rounds, patience⟩ : ∃ rounds, h.patience = rounds + 1 := ⟨h.patience - 1, by omega⟩
  rw [catchUncaught, patience, classify_reaches reaches installed,
    bind_ok (guard_failure raised recovers)]
  exact review_cleared cleared rounds e

end Plain

variable {c : ContextId} {h : Host (Ledger σ)} (nests : h.Nests) {status : Int}
include nests

theorem leave_exits {w x : Recorded σ} {outcome : Except Signal Unit}
    (ready : w.Ready [c] (some c)) (left : leave h c status w = (outcome, x)) :
    w.Exits h c status outcome x := by
  obtain ⟨course, filters⟩ := Output.flushAll_asks nests ready
  rcases flushed : Output.flushAll h c w with ⟨signal | _, v⟩ <;> rw [flushed] at course filters
  · have whole : leave h c status w = (.error signal, v) := by rw [leave, bind_apply, flushed]
    cases whole.symm.trans left
    exact .stuck signal _ flushed filters
  · have ready' := course.ready ready
    obtain ⟨stack, rootClosed⟩ := Output.flushAll_closes flushed (ready'.present c rfl)
    obtain ⟨outcome, v', answered, inner, direct⟩ := nests.answered (.exit c status) ready'
    have whole : leave h c status w = (outcome, v'.note (.answered (.exit c status) outcome)) :=
      (bind_ok flushed).trans answered
    cases whole.symm.trans left
    have later : v.embedder.journal <+:
        (v'.note (.answered (.exit c status) outcome)).embedder.journal :=
      (List.prefix_append _ _).trans (inner.journal.trans (List.prefix_append _ _))
    refine .called v v' outcome flushed filters stack rootClosed answered ?_
    rw [World.direct_trans course.journal later course.running, direct, course.running]

theorem leave_obeys {t : Stretch σ} (patient : (t.last.output t.context).burden ≤ h.patience)
    {w : Recorded σ} (reached : t.Reaches w) :
    (leave h t.context status).Obeys t Call.isHandling (fun _ => False) w :=
  .bind reached (Output.flushAll_obeys nests (fun _ _ _ => rfl) patient reached) fun _ _ _ reached =>
    exit_obeys nests rfl reached

omit nests in
theorem leave_of_exits {w x : Recorded σ} {outcome : Except Signal Unit}
    (exits : w.Exits h c status outcome x) : leave h c status w = (outcome, x) := by
  cases exits with
  | stuck signal _ flushed => rw [leave, bind_apply, flushed]
  | called v v' _ flushed _ _ _ answered => exact (bind_ok flushed).trans answered

theorem exits_returns {t : Stretch σ} {outcome : Except Signal Unit}
    (exits : t.first.Exits h t.context status outcome t.last)
    (patient : (t.last.output t.context).burden ≤ h.patience) : outcome = .ok () := by
  have left := leave_of_exits exits
  have obeys : (leave h t.context status).Obeys t Call.isHandling (fun _ => False) t.first :=
    leave_obeys nests patient (.still t.first)
  have raised := (obeys.yields (by rw [left]; exact .still t.last)).raised
  rw [left] at raised
  cases outcome with
  | ok => rfl
  | error signal => exact (raised signal rfl).elim

end Boundary

def Event.exit? : Event → Option Int
  | .called (.exit _ status) => some status
  | _ => none

theorem Event.exit?_of_filter {event : Event} (filters : event.concerns Call.isFilter) :
    event.exit? = none := by
  cases event with
  | called call =>
    cases call with
    | exit => cases filters _ rfl
    | _ => rfl
  | _ => rfl

theorem World.Exits.calls {h : Host (Ledger σ)} {c : ContextId} {status : Int} {w x : Recorded σ}
    {outcome : Except Signal Unit} (exits : w.Exits h c status outcome x) :
    ((∃ signal, outcome = .error signal) ∧ (w.direct x).filterMap (·.event.exit?) = []) ∨
      (w.direct x).filterMap (·.event.exit?) = [status] ∧
        ∃ m ∈ w.direct x, m.event = .called (.exit c status) ∧
          (m.world.output c).stack = [] ∧ (m.world.output c).isRootClosed := by
  have quiet {v : Recorded σ} (filters : ∀ e ∈ w.direct v, e.event.concerns Call.isFilter) :
      (w.direct v).filterMap (·.event.exit?) = [] :=
    List.filterMap_eq_nil_iff.2 fun e member => Event.exit?_of_filter (filters e member)
  cases exits with
  | stuck signal _ _ filters => exact .inl ⟨⟨signal, rfl⟩, quiet filters⟩
  | called v v' _ _ filters stack rootClosed _ whole =>
    right
    rw [whole, List.filterMap_append, quiet filters]
    exact ⟨rfl, _, List.mem_append_right _ List.mem_cons_self, rfl, stack, rootClosed⟩

/-- An exit that gets to the boundary around the code of a context flushes all output. If a filter
unwinds then, so does the code as a whole, and the exit function is not called; otherwise it is called
once, when all buffers are gone. The same goes for an exit of the exception handler, unless no handler
is installed any longer: such an exit is lost, and the first failure is not dealt with. If what is
called for the exit returns, the flush succeeds and nothing unwinds. -/
theorem Script.exit_flushes_first (s : Script σ) (depth : Nat) (patient : 1 < s.patience) :
    (∀ (ρ : Type) (code : Code σ ρ) (files : FileTree) (own : σ),
      (code.run (s.host depth) (.start files own)).2.Sound ∧
      ∀ m ∈ s.journal depth code files own, m.world.Sound) ∧
    (∀ (w v : Recorded σ) (c : ContextId) (body : Run (Ledger σ) Unit) (f : Failure), v.Sound →
      v.contexts.has c → body w = (.error (.failure f), v) → f.isRecoverable →
      (∀ status, f.ExitsWith status → ∃ outcome x, v.Exits (s.host depth) c status outcome x ∧
        Boundary.execute (s.host depth) c body w = (outcome.map fun _ => none, x)) ∧
      ∀ k e u status, f.ReachesHandler → v.handler c = some k →
        (s.host depth).handleException k c f v = (.error (.failure e), u) → e.isRecoverable →
        e.ExitsWith status →
        match u.handler c with
        | some saved => ∃ outcome x,
            (u.setHandler c none).Exits (s.host depth) c status outcome x ∧
            Boundary.execute (s.host depth) c body w =
              (outcome.map fun _ => none, x.setHandler c (some saved))
        | none => Boundary.execute (s.host depth) c body w = (.ok (some f), u)) ∧
    ∀ (v x : Recorded σ) (c : ContextId) (status : Int) (outcome : Except Signal Unit), v.Sound →
      v.contexts.has c → v.Exits (s.host depth) c status outcome x →
      (∀ m ∈ v.direct x, m.isFair c) → (x.output c).burden ≤ s.patience →
      outcome = .ok () ∧ (v.direct x).filterMap (·.event.exit?) = [status] := by
  have nests := s.host_nests depth
  rw [← s.host_patience depth] at patient ⊢
  refine ⟨fun ρ code files own => ⟨?_, fun m member => (regular_of_journal member).sound⟩,
    fun w v c body f sound there raised recovers => ⟨fun status exits => ?_,
      fun k e u status reaches installed raised' recovers' exits => ?_⟩,
    fun v x c status outcome sound there exits fair few => ?_⟩
  · exact (s.course depth code files own).sound (World.start_sound files own)
  · rcases left : Boundary.leave (s.host depth) c status v with ⟨outcome, x⟩
    exact ⟨outcome, x, Boundary.leave_exits nests (sound.readyFor there) left,
      Boundary.execute_leaves (by omega) raised recovers exits left⟩
  · cases slot : u.handler c with
    | none =>
      have dropped := Boundary.catchUncaught_drops (by omega) reaches installed raised' recovers' slot
      exact Boundary.execute_of_caught raised recovers dropped
    | some saved =>
      have ready := sound.readyFor there
      -- the handler runs first, then it is withdrawn, and the exit is one from that world on
      have called : Course [c] v u := by
        have course := nests.follows.answer (.handleException k c f) rfl [c] v ready
        rwa [show (s.host depth).answer (.handleException k c f) v = _ from raised'] at course
      have withdrawn : Course [c] u (u.setHandler c none) :=
        Boundary.setExceptionHandler_follows c none [c] u (called.ready ready)
      rcases left : Boundary.leave (s.host depth) c status (u.setHandler c none) with ⟨outcome, x⟩
      refine ⟨outcome, x, Boundary.leave_exits nests (withdrawn.ready (called.ready ready)) left, ?_⟩
      have caught := Boundary.catchUncaught_leaves patient reaches installed raised' recovers' exits
        slot left
      rw [Boundary.execute_of_caught raised recovers caught]
      cases outcome <;> rfl
  · let t : Stretch σ := ⟨c, v, x, sound.readyFor there, fair⟩
    have returned := Boundary.exits_returns (t := t) nests exits few
    rcases exits.calls with ⟨⟨signal, unwound⟩, -⟩ | ⟨once, -⟩
    · rw [returned] at unwound
      cases unwound
    · exact ⟨returned, once⟩

def exiting (s : Script Unit) (w : Recorded Unit) : Except Signal (Option Failure) × Recorded Unit :=
  Boundary.execute (s.host 2) ⟨0⟩ (Run.fail (.exit 3 .null)) w

theorem exit_flushes_first_filtered : 1 < leaving.patience ∧
    (exiting leaving beforeLeaving).1 = .ok none ∧
    (beforeLeaving.direct (exiting leaving beforeLeaving).2).filterMap (·.event.stage?) =
      [.filter, .exit 3] ∧
    (beforeLeaving.direct (exiting leaving beforeLeaving).2).filterMap (·.event.exit?) = [3] := by
  have patient : 1 < leaving.patience := by decide
  obtain ⟨runs, ends, returns⟩ := leaving.exit_flushes_first 2 patient
  have sound : beforeLeaving.Sound := (runs _ _ _ _).1
  have there : beforeLeaving.contexts.has ⟨0⟩ := by decide +kernel
  have fair : ∀ m ∈ beforeLeaving.direct (exiting leaving beforeLeaving).2, m.isFair ⟨0⟩ := by
    decide +kernel
  have few : ((exiting leaving beforeLeaving).2.output ⟨0⟩).burden ≤ leaving.patience := by
    decide +kernel
  have stages : (beforeLeaving.direct (exiting leaving beforeLeaving).2).filterMap
      (·.event.stage?) = [.filter, .exit 3] := by decide +kernel
  obtain ⟨exits, -⟩ := ends beforeLeaving beforeLeaving ⟨0⟩ (Run.fail (.exit 3 .null))
    (.exit 3 .null) sound there rfl rfl
  obtain ⟨outcome, x, exits, executed⟩ := exits 3 ⟨.null, rfl⟩
  rw [← exiting] at executed
  rw [executed] at fair few stages ⊢
  obtain ⟨rfl, once⟩ := returns _ _ _ _ _ sound there exits fair few
  exact ⟨patient, rfl, stages, once⟩

def spoiling : Script Unit where
  patience := 16
  code
    | .filterOutput .. => .done (.error (.failure (.exception ⟨none, "x", ⟨[], 0, 0⟩, [], none, none⟩)))
    | .exit .. => .done (.ok ())
    | _ => .done (.error .exhausted)

def beforeSpoiling : Recorded Unit :=
  ((Code.each () (compilingContext ++ [.act ⟨0⟩ (.startBuffer (some ⟨1⟩) 0 true),
    .act ⟨0⟩ (.startBuffer (some ⟨2⟩) 0 true)]) : Code Unit Unit).run (spoiling.host 2)
    (.start (FileTree.make "/") ())).2

theorem exit_lost_in_flush : beforeSpoiling.contexts.has ⟨0⟩ ∧
    (exiting spoiling beforeSpoiling).1.isOk = false ∧
    (beforeSpoiling.direct (exiting spoiling beforeSpoiling).2).filterMap (·.event.stage?) =
      [.filter] ∧
    ((exiting spoiling beforeSpoiling).2.output ⟨0⟩).stack ≠ [] := by
  refine ⟨?_, ?_, ?_, ?_⟩ <;> decide +kernel

end ScriptHost
