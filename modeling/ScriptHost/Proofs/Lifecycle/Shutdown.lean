import ScriptHost.Proofs.Boundary.Handling
import ScriptHost.Proofs.Lifecycle.Passes

set_option autoImplicit false

namespace ScriptHost

open Run

variable {σ τ α β : Type}

theorem Failure.goesOn_of_exit (f : Failure) {exit : Int × Value}
    (exits : f.chain.findSome? Failure.exit? = some exit) : f.chain.any Failure.isFinally = false := by
  fun_induction Failure.chain f with
  | case1 text cause ih | case2 _ _ _ _ _ previous ih => exact ih exits
  | case3 f => cases f <;> simp_all [Failure.exit?, Failure.isFinally]

def Call.isFilter : Call → Bool
  | .filterOutput .. => true
  | _ => false

def Call.isEnding (call : Call) : Bool := call.isDestructor || call.isHandling

def Event.isFailedDestructor : Event → Bool
  | .answered (.destroyObject ..) (.error _) => true
  | _ => false

namespace World

def rounds (w : World τ) (c : ContextId) : Nat :=
  (w.context c).shutdownFunctions.length + (w.context c).tracker.next + (w.output c).burden

theorem of_rounds_lt {w : World τ} {c : ContextId} {n : Nat} (few : w.rounds c < n) :
    (w.context c).shutdownFunctions.length < n ∧ (w.context c).tracker.next < n ∧
      (w.output c).burden ≤ n := by
  unfold rounds at few
  omega

def after (w : Recorded σ) (moments : List (Moment σ)) : World σ :=
  (moments.getLast?.map (·.world)).getD w.unrecorded

end World

def shutdownEvents (c : ContextId) (done : List Callback) (failed : Option (Callback × Failure)) :
    List Event :=
  done.flatMap (fun k => [.called (.shutDown k c), .answered (.shutDown k c) (.ok ())]) ++
    match failed with
    | some (k, f) => [.called (.shutDown k c), .answered (.shutDown k c) (.error (.failure f))]
    | none => []

def AreFirst (done : List Callback) (failed : Option (Callback × Failure)) (list : List Callback) : Prop :=
  match failed with
  | some (k, _) => done ++ [k] <+: list
  | none => list = done

theorem AreFirst.cons {done : List Callback} {failed : Option (Callback × Failure)} {k : Callback}
    {list : List Callback} {i : Nat} (there : list[i]? = some k)
    (listed : AreFirst done failed (list.drop (i + 1))) :
    AreFirst (k :: done) failed (list.drop i) := by
  obtain ⟨inside, here⟩ := List.getElem?_eq_some_iff.1 there
  rw [List.drop_eq_getElem_cons inside, here]
  cases failed with
  | none => exact congrArg (k :: ·) listed
  | some => exact List.cons_prefix_cons.2 ⟨rfl, listed⟩

structure World.ShutsDown (w : Recorded σ) (c : ContextId) (w' : Recorded σ) (done : List Callback)
    (failed : Option (Callback × Failure)) (loop rest : List (Moment σ)) : Prop where
  direct : w.direct w' = loop ++ rest
  events : loop.map (·.event) = shutdownEvents c done failed
  listed : AreFirst done failed ((w.after loop).context c).shutdownFunctions
  others : ∀ m ∈ rest, ∀ call, m.event.call? = some call → call.isEnding
  exits : ∀ k f status payload, failed = some (k, f) →
    f.chain.findSome? Failure.exit? = some (status, payload) →
    (∀ m ∈ rest, m.event.isFailedDestructor = false) →
    ∃ destroys filters exit more, rest = destroys ++ filters ++ exit :: more ∧
      (∀ m ∈ destroys, ∀ call, m.event.call? = some call → call.isDestructor) ∧
      (∀ m ∈ filters, ∀ call, m.event.call? = some call → call.isFilter) ∧
      exit.event = .called (.exit c status) ∧
      ∀ m ∈ (filters ++ [exit]).head?, m.world.IsSettled c ∧
        ∃ early late, w.since w' = early ++ m :: late ∧
          early.filter (·.isAt w.embedder.running.length) = loop ++ destroys ∧
          ∀ v between, Since w.unrecorded early v between →
            v.Clears c (between ++ [m]) m.running m.world
  stack : (w'.context c).output.stack = []
  rootClosed : (w'.context c).output.isRootClosed = true
  unreported : (w'.context c).diagnostics.last = none

theorem World.after_append (w v : Recorded σ) {early late : List (Moment σ)}
    (between : w.after early = v.unrecorded) : w.after (early ++ late) = v.after late := by
  unfold after at between ⊢
  rw [List.getLast?_append]
  cases last : late.getLast? with
  | none => simpa using between
  | some m => rfl

theorem Run.Obeys.returns {t : Stretch σ} {asks : Call → Bool} {m : Run (Ledger σ) α}
    {f : α → Run (Ledger σ) β} {w : Recorded σ} (obeys : m.Obeys t asks (fun _ => False) w)
    (reached : t.Reaches w) (rest : ∀ a, (f a).Follows (some t.context))
    (onward : Course [t.context] ((m >>= f) w).2 t.last) :
    ∃ a v, m w = (.ok a, v) ∧ Course [t.context] w v ∧ Course [t.context] v t.last ∧
      w.Yields t asks (fun _ => False) (Except.ok a) v := by
  obtain ⟨course, yields⟩ := obeys
  rw [bind_apply] at onward
  rcases result : m w with ⟨signal | a, v⟩ <;> rw [result] at course yields onward
  · exact ((yields onward).raised signal rfl).elim
  · have later := (rest a _ v (reached.trans course).ready).trans onward
    exact ⟨a, v, rfl, course, later, yields later⟩

theorem Run.Follows.before {home : Option ContextId} {making : List ContextId}
    {m : Run (Ledger σ) α} {f : α → Run (Ledger σ) β} {w w' : Recorded σ}
    {outcome : Except Signal β} (first : m.Follows home) (rest : ∀ a, (f a).Follows home)
    (ready : w.Ready making home) (ended : (m >>= f) w = (outcome, w')) :
    Course making (m w).2 w' := by
  have later := (first making w ready).ready ready
  rw [bind_apply] at ended
  rcases result : m w with ⟨signal | a, v⟩ <;> rw [result] at later ended
  · cases ended
    exact .still _
  · exact (rest a).course later ended

namespace Execution

def dealWith (h : Host τ) (c : ContextId) (f : Failure) : Run τ Unit := do
  if (f.chain.findSome? Failure.exit?).isSome then finalizeGuarded h c
  let _ ← Boundary.catchUncaught h c f

def dealWithAny (h : Host τ) (c : ContextId) : Option (Callback × Failure) → Run τ Unit
  | some (_, f) => dealWith h c f
  | none => return

def wrapUp (h : Host τ) (c : ContextId) (failed : Option (Callback × Failure)) : Run τ Unit := do
  dealWithAny h c failed
  finalizeGuarded h c
  Output.flushAll h c
  modifyDiagnostics c fun d => { d with last := none }

theorem wrapUp_flushes {h : Host τ} {c : ContextId} {failed : Option (Callback × Failure)}
    {w w' : World τ} (returned : wrapUp h c failed w = (.ok (), w')) (known : w'.contexts.has c) :
    (w'.context c).output.stack = [] ∧ (w'.context c).output.isRootClosed = true ∧
      (w'.context c).diagnostics.last = none := by
  obtain ⟨_, _, -, rest⟩ := of_bind_ok returned
  obtain ⟨_, _, -, rest⟩ := of_bind_ok rest
  obtain ⟨_, v, flushed, last⟩ := of_bind_ok rest
  have ended : w' = v.updateContext c fun x =>
      { x with diagnostics := { x.diagnostics with last := none } } := (congrArg Prod.snd last).symm
  subst ended
  have there : v.contexts.has c := (v.contexts.has_modify c c _).symm.trans known
  obtain ⟨empty, closed⟩ := Output.flushAll_closes flushed there
  rw [v.context_updateContext, if_pos ⟨rfl, there⟩]
  exact ⟨empty, closed, rfl⟩

section Following

variable {h : Host (Ledger σ)} (follows : h.Follows)
include follows

theorem catching_follows (c : ContextId) (f : Failure) :
    (do let _ ← Boundary.catchUncaught h c f : Run (Ledger σ) Unit).Follows (some c) :=
  .bind (Boundary.catchUncaught_follows follows c f) fun _ => .pure _

theorem dealWith_follows (c : ContextId) (f : Failure) : (dealWith h c f).Follows (some c) := by
  unfold dealWith
  dsimp only
  split
  next => exact .bind (finalizeGuarded_follows follows c) fun _ => catching_follows follows c f
  next => exact catching_follows follows c f

theorem flushing_follows (c : ContextId) : (do
    Output.flushAll h c
    modifyDiagnostics c fun d => { d with last := none } : Run (Ledger σ) Unit).Follows (some c) :=
  .bind (Output.flushAll_follows follows c) fun _ => modifyDiagnostics_follows c _

theorem finishing_follows (c : ContextId) : (do
    finalizeGuarded h c
    Output.flushAll h c
    modifyDiagnostics c fun d => { d with last := none } : Run (Ledger σ) Unit).Follows (some c) :=
  .bind (finalizeGuarded_follows follows c) fun _ => flushing_follows follows c

end Following

section Stretch

variable {t : Stretch σ} {h : Host (Ledger σ)} (nests : h.Nests)
  (patient : t.last.rounds t.context < h.patience) {raises : Signal → Prop} {w v : Recorded σ}
include nests patient

theorem flushAll_obeys {asks : Call → Bool}
    (filters : ∀ k chunk mode, asks (.filterOutput k t.context chunk mode)) (reached : t.Reaches w) :
    (Output.flushAll h t.context).Obeys t asks raises w :=
  Output.flushAll_obeys nests filters (World.of_rounds_lt patient).2.2 reached

theorem finalize_obeys (fails : ∀ m ∈ t.first.direct t.last, ∀ k o signal,
      m.event = .answered (.destroyObject k t.context o) (.error signal) → raises signal)
    (reached : t.Reaches w) :
    (Lifecycle.finalize h t.context).Obeys t Call.isDestructor raises w :=
  Lifecycle.finalize_obeys nests fails (World.of_rounds_lt patient).2.1 reached

theorem finalizeGuarded_settles (fails : ∀ m ∈ t.first.direct t.last,
      m.event.isFailedDestructor = false) (reached : t.Reaches w)
    (onward : Course [t.context] (finalizeGuarded h t.context w).2 t.last) :
    ∃ u, finalizeGuarded h t.context w = (.ok (), u) ∧ Course [t.context] w u ∧
      u.IsSettled t.context ∧
      ∀ m ∈ w.direct u, ∀ call, m.event.call? = some call → call.isDestructor := by
  have obeys : (Lifecycle.finalize h t.context).Obeys t Call.isDestructor (fun _ => False) w := by
    refine finalize_obeys nests patient (fun m member k o signal same => ?_) reached
    have failed := fails m member
    rw [same] at failed
    cases failed
  -- the guard hides how the passes have ended, so that they are looked at once more below
  have guarding : (Boundary.guard (Lifecycle.finalize h t.context)).Obeys t Call.isDestructor
      (fun _ => False) w := .guard (obeys.mono (fun _ => id) nofun)
  unfold finalizeGuarded at onward
  obtain ⟨failed, u, guarded, course, later, calls, -, -⟩ :=
    guarding.returns reached (fun failed => by
      cases failed with
      | some f => exact catching_follows nests.follows _ f
      | none => exact .pure _) onward
  have same := Boundary.guard_apply (Lifecycle.finalize h t.context) w
  rw [guarded] at same
  have raised := (obeys.yields (same ▸ later)).raised
  rcases result : Lifecycle.finalize h t.context w with ⟨signal | done, v⟩
  · exact (raised signal (by rw [result])).elim
  · rw [result] at same
    cases same
    have settled : u.IsSettled t.context :=
      Lifecycle.finalizeRounds_done nests.follows reached.ready result
    refine ⟨u, ?_, course, settled, calls⟩
    exact bind_ok (Boundary.guard_ok result)

omit patient in
theorem shutDown_called (k : Callback) (reached : t.Reaches w) :
    ∃ outcome v, h.shutDown k t.context w = (outcome, v) ∧ Course [t.context] w v ∧
      (w.direct v).map (·.event) =
        [.called (.shutDown k t.context), .answered (.shutDown k t.context) outcome] ∧
      w.after (w.direct v) = v.unrecorded ∧
      (Course [t.context] v t.last → endsFairly outcome) := by
  obtain ⟨outcome, v, answered, -, direct⟩ :=
    nests.answered (.shutDown k t.context) reached.ready
  have course := nests.follows.answer (.shutDown k t.context) rfl _ w
    reached.ready
  rw [answered] at course
  refine ⟨outcome, _, answered, course, ?_, ?_, fun onward => ?_⟩
  · rw [direct]
    rfl
  · rw [direct]
    rfl
  · have within := reached.within course onward
    rw [direct] at within
    exact t.fair _ (within _ (List.mem_cons_of_mem _ List.mem_cons_self))

omit patient in
theorem runShutdown_runs {rounds i : Nat} (reached : t.Reaches w)
    (inside : i ≤ (w.context t.context).shutdownFunctions.length)
    (onward : Course [t.context] (runShutdown h t.context rounds i w).2 t.last)
    (enough : (t.last.context t.context).shutdownFunctions.length < rounds + i) :
    ∃ done failed v, Course [t.context] w v ∧
      runShutdown h t.context rounds i w = dealWithAny h t.context failed v ∧
      (w.direct v).map (·.event) = shutdownEvents t.context done failed ∧
      w.after (w.direct v) = v.unrecorded ∧
      AreFirst done failed ((v.context t.context).shutdownFunctions.drop i) := by
  -- by induction on the rounds: the list only grows, and the position is one further in each round
  induction rounds generalizing w i with
  | zero =>
    have longer := (onward.extends.contexts t.context reached.present).2.shutdown.length_le
    rw [Nat.zero_add] at enough
    exact absurd (Nat.le_trans inside longer) (Nat.not_le_of_lt enough)
  | succ rounds ih =>
    rw [runShutdown, bind_ok (context_apply w t.context)] at onward ⊢
    cases next : (w.context t.context).shutdownFunctions[i]? with
    | none =>
      have silent : w.direct w = [] := World.direct_of_same rfl
      have ended := List.drop_eq_nil_of_le (List.getElem?_eq_none_iff.1 next)
      exact ⟨[], none, w, .still w, rfl, by rw [silent]; rfl, by rw [silent]; rfl, ended⟩
    | some k =>
      rw [next] at onward
      dsimp only at onward ⊢
      obtain ⟨outcome, u, called, first, events, last, fairly⟩ := shutDown_called nests k reached
      have grown := (first.extends.contexts t.context reached.present).2.shutdown
      cases outcome with
      | ok =>
        have guarded := Boundary.guard_ok called
        rw [bind_ok guarded] at onward ⊢
        dsimp only at onward ⊢
        have more : i + 1 ≤ (u.context t.context).shutdownFunctions.length :=
          Nat.le_trans (List.getElem?_eq_some_iff.1 next).1 grown.length_le
        obtain ⟨done, failed, v, rest, same, events', last', listed⟩ :=
          ih (reached.trans first) more onward (by omega)
        have whole := first.direct_trans rest
        refine ⟨k :: done, failed, v, first.trans rest, same, ?_, ?_, ?_⟩
        · rw [whole, List.map_append, events, events']
          rfl
        · rw [whole, World.after_append w u last, last']
        · -- what stood at the position still does when the last function has run
          have kept := grown.trans
            (rest.extends.contexts t.context (reached.trans first).present).2.shutdown
          exact .cons (getElem?_of_isPrefix kept next) listed
      | error signal =>
        by_cases stopped : signal.isStopped
        · cases signal with
          | failure f =>
            rw [bind_ok (Boundary.guard_failure called stopped)]
            have listed : AreFirst [] (some (k, f))
                ((u.context t.context).shutdownFunctions.drop i) := by
              obtain ⟨below, here⟩ := List.getElem?_eq_some_iff.1 (getElem?_of_isPrefix grown next)
              rw [List.drop_eq_getElem_cons below, here]
              exact List.prefix_append [k] _
            exact ⟨[], some (k, f), u, first, rfl, events, last, listed⟩
          | value | exhausted => cases stopped
        · -- a signal that no boundary stops would end the whole shutdown, and is not fair
          have passes : Boundary.Passes signal := by
            rintro e rfl
            simpa [Signal.isStopped] using stopped
          rw [bind_apply, Boundary.guard_passes called passes] at onward
          exact absurd (fairly onward) stopped

theorem catchUncaught_exits (f : Failure) {status : Int} {payload : Value}
    (exits : f.chain.findSome? Failure.exit? = some (status, payload)) (reached : t.Reaches w)
    (onward : Course [t.context] (Boundary.catchUncaught h t.context f w).2 t.last) :
    ∃ filters exit answer u, Course [t.context] w u ∧ Course [t.context] u t.last ∧
      w.direct u = filters ++ [exit, answer] ∧
      (∀ m ∈ filters, ∀ call, m.event.call? = some call → call.isFilter) ∧
      exit.event = .called (.exit t.context status) ∧
      (w.IsSettled t.context → ∀ m ∈ (filters ++ [exit]).head?, m.world.IsSettled t.context) := by
  obtain ⟨rounds, some⟩ : ∃ rounds, h.patience = rounds + 1 :=
    Nat.exists_eq_succ_of_ne_zero (Nat.ne_zero_of_lt patient)
  have same : Boundary.catchUncaught h t.context f = (do
      Output.flushAll h t.context
      h.exit t.context status
      return true) := by
    unfold Boundary.catchUncaught
    rw [some, Boundary.classify, if_neg (by simp [f.goesOn_of_exit exits]), exits]
  rw [same] at onward
  have exiting : (do h.exit t.context status; return true : Run (Ledger σ) Bool).Follows
      (Option.some t.context) := .bind (nests.follows.answer (.exit t.context status) rfl) fun _ => .pure _
  have flushing : (Output.flushAll h t.context).Obeys t Call.isFilter (fun _ => False) w :=
    flushAll_obeys nests patient (fun _ _ _ => rfl) reached
  obtain ⟨_, v, flushed, first, -, calls, settled, -⟩ :=
    flushing.returns reached (fun _ => exiting) onward
  rw [bind_ok flushed] at onward
  have there := reached.trans first
  have ends : (h.exit t.context status).Obeys t (fun _ => true) (fun _ => False) v :=
    Boundary.exit_obeys nests rfl there
  obtain ⟨_, u, exited, second, onward, -⟩ :=
    ends.returns there (fun _ => .pure true) onward
  obtain ⟨outcome, v', answered, -, direct⟩ := nests.answered (.exit t.context status) there.ready
  cases answered.symm.trans exited
  have whole := first.direct_trans second
  rw [direct] at whole
  refine ⟨w.direct v, _, _, _, first.trans second, onward, whole, calls, rfl, fun before m head => ?_⟩
  -- the first filter starts where the flush does, and so does the exit if there is none
  have halted := settled before
  unfold World.halt at halted
  rw [List.head?_append] at head
  cases early : (w.direct v).head? with
  | none =>
    rw [early] at head halted
    cases head
    exact halted
  | some m' =>
    rw [early] at head halted
    cases head
    exact halted

theorem dealWith_exits (f : Failure) {status : Int} {payload : Value}
    (exits : f.chain.findSome? Failure.exit? = some (status, payload))
    (fails : ∀ m ∈ t.first.direct t.last, m.event.isFailedDestructor = false) (reached : t.Reaches w)
    (onward : Course [t.context] (dealWith h t.context f w).2 t.last) :
    ∃ destroys filters exit more, w.direct t.last = destroys ++ filters ++ exit :: more ∧
      (∀ m ∈ destroys, ∀ call, m.event.call? = some call → call.isDestructor) ∧
      (∀ m ∈ filters, ∀ call, m.event.call? = some call → call.isFilter) ∧
      exit.event = .called (.exit t.context status) ∧
      ∀ m ∈ (filters ++ [exit]).head?, m.world.IsSettled t.context := by
  unfold dealWith at onward
  dsimp only at onward
  rw [exits, if_pos (show (some (status, payload)).isSome from rfl)] at onward
  have before := (finalizeGuarded_follows nests.follows t.context).before
    (fun _ => catching_follows nests.follows t.context f) reached.ready rfl
  obtain ⟨u, guarded, course, settled, destroys⟩ :=
    finalizeGuarded_settles nests patient fails reached (before.trans onward)
  rw [bind_ok guarded] at onward
  have reached' := reached.trans course
  have before := (Boundary.catchUncaught_follows nests.follows t.context f).before
    (fun _ => .pure ()) reached'.ready rfl
  obtain ⟨filters, exit, answer, v, course', later, direct, filtered, called, first⟩ :=
    catchUncaught_exits nests patient f exits reached' (before.trans onward)
  refine ⟨w.direct u, filters, exit, answer :: v.direct t.last, ?_, destroys, filtered, called,
    first settled⟩
  rw [course.direct_trans (course'.trans later), course'.direct_trans later, direct]
  simp

variable (enough : 1 < h.patience)
include enough

theorem catchUncaught_ends (f : Failure) (reached : t.Reaches w) :
    (Boundary.catchUncaught h t.context f).Obeys t Call.isEnding raises w := by
  have handled : (Boundary.catchUncaught h t.context f).Obeys t Call.isHandling raises w :=
    Boundary.catchUncaught_obeys nests (World.of_rounds_lt patient).2.2 enough f reached
  exact handled.mono (fun call handles => by simp [Call.isEnding, handles]) fun _ => id

theorem catching_ends (f : Failure) (reached : t.Reaches w) :
    (do let _ ← Boundary.catchUncaught h t.context f : Run (Ledger σ) Unit).Obeys t Call.isEnding
      raises w :=
  .bind reached (catchUncaught_ends nests patient enough f reached) fun _ _ _ _ => .pure _

theorem finalizeGuarded_ends (reached : t.Reaches w) :
    (finalizeGuarded h t.context).Obeys t Call.isEnding raises w := by
  have destroying : (Lifecycle.finalize h t.context).Obeys t Call.isDestructor (·.isStopped) w := by
    refine finalize_obeys nests patient (fun m member k o signal same => ?_) reached
    have fair := t.fair m member
    simp only [Moment.isFair, same, Bool.and_eq_true] at fair
    exact fair.1
  have wider (call : Call) (destroys : call.isDestructor) : call.isEnding := by
    simp [Call.isEnding, destroys]
  have guarded : (Boundary.guard (Lifecycle.finalize h t.context)).Obeys t Call.isEnding raises w :=
    .guard (destroying.mono wider fun _ => id)
  refine .bind reached guarded fun failed v _ reached => ?_
  cases failed with
  | some f => exact catching_ends nests patient enough f reached
  | none => exact .pure _

theorem dealWithAny_ends (failed : Option (Callback × Failure)) (reached : t.Reaches w) :
    (dealWithAny h t.context failed).Obeys t Call.isEnding raises w := by
  cases failed with
  | none => exact .pure _
  | some failed =>
    unfold dealWithAny dealWith
    dsimp only
    split
    next =>
      refine .bind reached (finalizeGuarded_ends nests patient enough reached) fun _ v _ reached => ?_
      exact catching_ends nests patient enough _ reached
    next => exact catching_ends nests patient enough _ reached

theorem wrapUp_ends (failed : Option (Callback × Failure)) (reached : t.Reaches w) :
    (wrapUp h t.context failed).Obeys t Call.isEnding raises w := by
  refine .bind reached (dealWithAny_ends nests patient enough failed reached) fun _ v _ reached => ?_
  refine .bind reached (finalizeGuarded_ends nests patient enough reached) fun _ v _ reached => ?_
  refine .bind reached (flushAll_obeys nests patient (fun _ _ _ => rfl) reached) fun _ v _ reached => ?_
  exact .modifyDiagnostics reached _

end Stretch

theorem final_shutsDown {h : Host (Ledger σ)} (nests : h.Nests) {w w' : Recorded σ} {c : ContextId}
    {outcome : Except Signal Unit} (sound : w.Sound) (there : w.contexts.has c)
    (ended : final h c w = (outcome, w')) (fair : ∀ m ∈ w.direct w', m.isFair c)
    (few : w'.rounds c < h.patience) :
    outcome = .ok () ∧ ∃ done failed loop rest, w.ShutsDown c w' done failed loop rest := by
  have ready := sound.readyFor there
  let t : Stretch σ := ⟨c, w, w', ready, fair⟩
  have reached : t.Reaches w := .still w
  have follows := nests.follows
  have whole : Course [c] w w' := (final_follows follows c).course ready ended
  have onward : Course [c] (runShutdown h c h.patience 0 w).2 w' :=
    (runShutdown_follows follows c h.patience 0).before (fun _ => finishing_follows follows c) ready ended
  obtain ⟨functions, handles, -⟩ := World.of_rounds_lt few
  have handles : 1 < h.patience :=
    Nat.lt_of_le_of_lt ((whole.sound sound).contexts c).tracker.started handles
  obtain ⟨done, failed, v, first, same, events, last, listed⟩ :=
    runShutdown_runs (t := t) nests reached (Nat.zero_le _) onward functions
  have wrapped : wrapUp h c failed v = (outcome, w') := by
    rw [← ended]
    unfold wrapUp final
    rw [bind_apply, bind_apply, same]
  obtain ⟨course, yields⟩ : (wrapUp h c failed).Obeys t Call.isEnding (fun _ => False) v :=
    wrapUp_ends (t := t) nests few handles failed first
  rw [wrapped] at course yields
  obtain ⟨calls, -, raised⟩ := yields (.still w')
  cases outcome with
  | error signal => exact (raised signal rfl).elim
  | ok =>
    have known := ((first.trans course).extends.contexts c there).1
    obtain ⟨stack, rootClosed, unreported⟩ := wrapUp_flushes wrapped known
    refine ⟨rfl, done, failed, w.direct v, v.direct w', ?_⟩
    exact
      { direct := first.direct_trans course
        events := events
        listed := last ▸ listed
        others := calls
        exits := by
          rintro k f status payload rfl exits unfailing
          -- only what comes after the functions is to be free of failures
          have reached' := reached.trans first
          let late : Stretch σ := ⟨c, v, w', reached'.ready, fun m member =>
            fair m (reached'.within course (.still w') m member)⟩
          have onward : Course [c] (dealWith h c f v).2 w' := (dealWith_follows follows c f).before
            (fun _ => finishing_follows follows c) reached'.ready wrapped
          obtain ⟨destroys, filters, exit, more, split, destroying, filtering, exiting, settled⟩ :=
            dealWith_exits (t := late) nests few f exits unfailing (.still v) onward
          refine ⟨destroys, filters, exit, more, split, destroying, filtering, exiting,
            fun m head => ⟨settled m head, ?_⟩⟩
          obtain ⟨after, next⟩ : ∃ after, filters ++ exit :: more = m :: after := by
            cases filters with
            | nil => exact ⟨more, by simpa using head⟩
            | cons first others => exact ⟨others ++ exit :: more, by simpa using head⟩
          have direct : w.direct w' = (w.direct v ++ destroys) ++ m :: after := by
            rw [first.direct_trans course, split, List.append_assoc, next, List.append_assoc]
          obtain ⟨early, rest, since, before⟩ := World.direct_split direct
          refine ⟨early, rest, since, before, fun u between point => ?_⟩
          -- what the context has tracked at any point is accounted for where nothing is left to destroy
          obtain ⟨moments, journal, accounted⟩ := whole.accounted sound (.start w)
          rw [World.since_append journal] at since
          exact (accounted.earlier early m rest since u between point).clears (settled m head)
        stack
        rootClosed
        unreported }

end Execution

theorem Script.host_patience (s : Script σ) (depth : Nat) : (s.host depth).patience = s.patience := by
  cases depth <;> rfl

/-- A shutdown comes to its end, in order, if the callbacks it calls end fairly and if in the end there
are no more functions, handles and buffers than it has patience for. It starts in a sound world, as all
worlds in all runs are. -/
theorem Script.shutdown_ordered (s : Script σ) (depth : Nat) :
    (∀ (ρ : Type) (code : Code σ ρ) (files : FileTree) (own : σ),
      (code.run (s.host depth) (.start files own)).2.Sound ∧
      ∀ m ∈ s.journal depth code files own, m.world.Sound) ∧
    ∀ (w w' : Recorded σ) (c : ContextId) (outcome : Except Signal Unit), w.Sound →
      w.contexts.has c → Execution.final (s.host depth) c w = (outcome, w') →
      (∀ m ∈ w.direct w', m.isFair c) → w'.rounds c < s.patience →
      outcome = .ok () ∧ ∃ done failed loop rest, w.ShutsDown c w' done failed loop rest := by
  refine ⟨fun ρ code files own => ⟨?_, fun m member => (regular_of_journal member).sound⟩, ?_⟩
  · exact (s.course depth code files own).sound (World.start_sound files own)
  · intro w w' c outcome sound there ended fair few
    rw [← s.host_patience depth] at few
    exact Execution.final_shutsDown (s.host_nests depth) sound there ended fair few

def furnishedContext : List Operation :=
  compilingContext ++
    [.newClass ⟨"Foo", none, true, default, some ⟨"__destruct", default, some ⟨7⟩⟩, .empty, none, none⟩,
      .act ⟨0⟩ (.registerClass ⟨0⟩), .act ⟨0⟩ (.create {} "Foo" []),
      .act ⟨0⟩ (.startBuffer (some ⟨8⟩) 0 true)]

def leaving : Script Unit where
  patience := 16
  code
    | .shutDown ⟨1⟩ c => .each () [.act c (.onShutdown ⟨2⟩)]
    | .shutDown _ c => .ask (.act c (.die (.int .int 3))) .done
    | .destroyObject .. | .exit .. => .done (.ok ())
    | .filterOutput _ _ chunk _ => .done (.ok chunk)
    | _ => .done (.error .exhausted)

def beforeLeaving : Recorded Unit :=
  ((Code.each () (furnishedContext ++ [.act ⟨0⟩ (.onShutdown ⟨1⟩)]) : Code Unit Unit).run
    (leaving.host 2) (.start (FileTree.make "/") ())).2

def left : Except Signal Unit × Recorded Unit := Execution.final (leaving.host 2) ⟨0⟩ beforeLeaving

inductive Stage where
  | function (k : Callback)
  | destructor
  | filter
  | exit (status : Int)
deriving DecidableEq

def Event.stage? : Event → Option Stage
  | .called (.shutDown k _) => some (.function k)
  | .called (.destroyObject ..) => some .destructor
  | .called (.filterOutput ..) => some .filter
  | .called (.exit _ status) => some (.exit status)
  | _ => none

theorem shutdown_ordered_exit :
    (beforeLeaving.direct left.2).filterMap (·.event.stage?) =
      [.function ⟨1⟩, .function ⟨2⟩, .destructor, .filter, .exit 3] ∧
    (∀ m ∈ beforeLeaving.direct left.2, m.isFair ⟨0⟩) ∧ left.2.rounds ⟨0⟩ < leaving.patience ∧
    left.1 = .ok () ∧
    ∃ done failed loop rest, beforeLeaving.ShutsDown ⟨0⟩ left.2 done failed loop rest := by
  obtain ⟨runs, ordered⟩ := leaving.shutdown_ordered 2
  have fair : ∀ m ∈ beforeLeaving.direct left.2, m.isFair ⟨0⟩ := by decide +kernel
  have few : left.2.rounds ⟨0⟩ < leaving.patience := by decide +kernel
  have sound : beforeLeaving.Sound := (runs _ _ _ _).1
  have there : beforeLeaving.contexts.has ⟨0⟩ := by decide +kernel
  have ended : Execution.final (leaving.host 2) ⟨0⟩ beforeLeaving = (left.1, left.2) :=
    (Prod.eta left).symm
  obtain ⟨returned, order⟩ := ordered beforeLeaving left.2 ⟨0⟩ left.1 sound there ended fair few
  exact ⟨by decide +kernel, fair, few, returned, order⟩

def popping : Script Unit where
  patience := 16
  code
    | .destroyObject _ c _ => .each () [.act c .popCall]
    | .filterOutput _ _ chunk _ => .done (.ok chunk)
    | _ => .done (.error .exhausted)

def beforePopping : Recorded Unit :=
  ((Code.each () furnishedContext : Code Unit Unit).run (popping.host 2)
    (.start (FileTree.make "/") ())).2

def popped : Except Signal Unit × Recorded Unit := Execution.final (popping.host 2) ⟨0⟩ beforePopping

def breeding (patience : Nat) : Host Unit :=
  { Host.idle with
    patience
    filterOutput := fun k c chunk _ => do
      let _ ← Output.start c (some k) 0 true
      return chunk }

def Output.Breeds (o : Output) : Prop :=
  ∃ b k, o.stack = [b] ∧ o.buffers.has b ∧ (o.buffer b).isClosed = false ∧
    (o.buffer b).handler = some k ∧ (o.buffer b).held = []

theorem Output.push_breeds {o : Output} (empty : o.stack = []) (k : Callback) :
    (o.push (some k) 0 true).Breeds := by
  refine ⟨o.buffers.next, k, congrArg (_ :: ·) empty, o.buffers.has_next_add _, ?_⟩
  simp [push, buffer]

theorem breeding_emits (patience : Nat) {w : World Unit} (known : w.contexts.has ⟨0⟩) {b : BufferId}
    {k : Callback} (filtered : ((w.output ⟨0⟩).buffer b).handler = some k)
    (empty : ((w.output ⟨0⟩).buffer b).held = []) (stack : (w.output ⟨0⟩).stack = [])
    (pass : Bytes → Run Unit (Nat × Option OutputError)) (mode : OutputMode) :
    ∃ v, Output.emit (breeding patience) ⟨0⟩ pass b mode w = (.ok none, v) ∧ v.contexts.has ⟨0⟩ ∧
      (v.output ⟨0⟩).Breeds := by
  let emptied := w.updateOutput ⟨0⟩ (·.modify b fun x => { x with held := [] })
  let called := emptied.updateOutput ⟨0⟩ (·.modify b fun x => { x with isStarted := true })
  have there : called.contexts.has ⟨0⟩ := by
    simpa [called, emptied, World.updateOutput, World.updateContext] using known
  have handled : Output.callHandler (breeding patience) ⟨0⟩ b k ((w.output ⟨0⟩).buffer b).held mode
      emptied = (.ok ((w.output ⟨0⟩).buffer b).held,
        called.updateOutput ⟨0⟩ (·.push (some k) 0 true)) := rfl
  refine ⟨called.updateOutput ⟨0⟩ (·.push (some k) 0 true), ?_, ?_, ?_⟩
  · rw [Output.emit, bind_ok (Output.bufferOf_apply w ⟨0⟩ b), bind_ok (Output.modifyBuffer_apply w ⟨0⟩ b _),
      filtered]
    dsimp only
    rw [bind_ok handled, empty]
    rfl
  · exact (Pool.has_modify ..).trans there
  · rw [World.output_updateOutput there]
    apply Output.push_breeds
    rw [World.output_updateOutput ((Pool.has_modify ..).trans known), World.output_updateOutput known]
    exact stack

theorem breeding_stops (patience : Nat) {w : World Unit} (known : w.contexts.has ⟨0⟩)
    (breeds : (w.output ⟨0⟩).Breeds) :
    ∃ b v, Output.stop (breeding patience) ⟨0⟩ w = (.ok (some b), v) ∧ v.contexts.has ⟨0⟩ ∧
      (v.output ⟨0⟩).Breeds := by
  obtain ⟨b, k, stack, inside, opened, filtered, empty⟩ := breeds
  let lower := w.updateOutput ⟨0⟩ (·.resize 0)
  let shut := lower.updateOutput ⟨0⟩ (·.modify b fun x => { x with isClosed := true })
  have there : lower.contexts.has ⟨0⟩ := (Pool.has_modify ..).trans known
  have there' : shut.contexts.has ⟨0⟩ := (Pool.has_modify ..).trans there
  have output : shut.output ⟨0⟩ =
      ((w.output ⟨0⟩).resize 0).modify b fun x => { x with isClosed := true } := by
    rw [World.output_updateOutput there, World.output_updateOutput known]
  have closed : (shut.output ⟨0⟩).buffer b = { (w.output ⟨0⟩).buffer b with isClosed := true } := by
    rw [output]
    exact Output.buffer_modify_self _ _ inside
  have vacant : (shut.output ⟨0⟩).stack = [] := by simp [output, Output.modify, Output.resize, stack]
  -- the handler opens the next buffer while this one is drained
  obtain ⟨v, emitted, known', breeds⟩ := breeding_emits patience there' (by rw [closed, filtered])
    (by rw [closed, empty]) vacant (Output.deliver (breeding patience) ⟨0⟩ ((shut.output ⟨0⟩).buffer b).below)
    { final := true }
  refine ⟨b, v, ?_, known', breeds⟩
  have opened' : ((lower.output ⟨0⟩).buffer b).isClosed = false := by
    rw [World.output_updateOutput known]
    exact opened
  rw [Output.stop, bind_ok (Run.context_apply w ⟨0⟩), show (w.context ⟨0⟩).output.stack = [b] from stack]
  dsimp only
  rw [bind_ok (Output.modifyStack_apply w ⟨0⟩ _), Output.close]
  have ended : Output.close (breeding patience) ⟨0⟩ (.buffer b) lower = (.ok none, v) := by
    rw [Output.close, bind_ok (Output.bufferOf_apply lower ⟨0⟩ b), opened', if_neg Bool.false_ne_true,
      bind_ok (Output.modifyBuffer_apply lower ⟨0⟩ b _), Output.drainBuffer,
      bind_ok (Output.bufferOf_apply shut ⟨0⟩ b)]
    exact emitted
  exact bind_ok ended

theorem breeding_stopAll (patience rounds : Nat) {w : World Unit} (known : w.contexts.has ⟨0⟩)
    (breeds : (w.output ⟨0⟩).Breeds) :
    ∃ v, Output.stopAll (breeding patience) ⟨0⟩ rounds w = (.error .exhausted, v) := by
  -- each round finds what the one before it has found
  induction rounds generalizing w with
  | zero => exact ⟨w, rfl⟩
  | succ rounds ih =>
    obtain ⟨b, v, stopped, known, breeds⟩ := breeding_stops patience known breeds
    rw [Output.stopAll, bind_ok stopped]
    exact ih known breeds

def bred : World Unit where
  contexts := Pool.empty.add
    { (default : Context) with output := (Output.make ⟨0⟩).push (some ⟨0⟩) 0 true }
  files := FileTree.make "/"
  observers := standardObservers
  embedder := ()

theorem breeding_final (patience : Nat) :
    (Execution.final (breeding patience) ⟨0⟩ bred).1 = .error .exhausted := by
  cases patience with
  | zero => rfl
  | succ patience =>
    let drained := bred.updateContext ⟨0⟩ fun x => { x with tracker := x.tracker.drain }
    have idle : Execution.runShutdown (breeding (patience + 1)) ⟨0⟩ (breeding (patience + 1)).patience 0
        bred = (.ok (), bred) := rfl
    have settled : Execution.finalizeGuarded (breeding (patience + 1)) ⟨0⟩ bred = (.ok (), drained) :=
      rfl
    have there : drained.contexts.has ⟨0⟩ := rfl
    have output : drained.output ⟨0⟩ = (Output.make ⟨0⟩).push (some ⟨0⟩) 0 true := rfl
    have breeds : (drained.output ⟨0⟩).Breeds := by
      rw [output]
      exact Output.push_breeds rfl ⟨0⟩
    obtain ⟨v, endless⟩ := breeding_stopAll (patience + 1)
      ((drained.context ⟨0⟩).output.stack.length + 1 + (breeding (patience + 1)).patience) there breeds
    rw [Execution.final, bind_ok idle, bind_ok settled, bind_apply, Output.flushAll,
      bind_ok (Run.context_apply drained ⟨0⟩), bind_apply, endless]

def hoarding : Script Unit where
  patience := 16
  code
    | .shutDown _ c => .ask (.act c (.die (.int .int 3))) .done
    | .filterOutput _ c chunk _ => .ask (.act c (.create {} "Foo" [])) fun _ => .done (.ok chunk)
    | .destroyObject .. | .exit .. => .done (.ok ())
    | _ => .done (.error .exhausted)

def beforeHoarding : Recorded Unit :=
  ((Code.each () (furnishedContext ++ [.act ⟨0⟩ (.onShutdown ⟨1⟩)]) : Code Unit Unit).run
    (hoarding.host 2) (.start (FileTree.make "/") ())).2

def hoarded : Except Signal Unit × Recorded Unit := Execution.final (hoarding.host 2) ⟨0⟩ beforeHoarding

def Event.isReturn : Event → Bool
  | .answered _ outcome => outcome.isOk
  | _ => true

theorem shutdown_disturbed :
    ((∀ m ∈ beforePopping.direct popped.2, m.event.isReturn) ∧ popped.1.isOk = false ∧
      (popped.2.context ⟨0⟩).output.isRootClosed = false) ∧
    (∀ patience k c chunk mode w, (breeding patience).filterOutput k c chunk mode w =
        (.ok chunk, w.updateOutput c (·.push (some k) 0 true)) ∧
      (Execution.final (breeding patience) ⟨0⟩ bred).1 = .error .exhausted) ∧
    (∀ m ∈ beforeHoarding.direct hoarded.2, m.isFair ⟨0⟩ ∧ m.event.isFailedDestructor = false) ∧
    ∃ m ∈ beforeHoarding.direct hoarded.2, m.event.stage? = some (.exit 3) ∧
      ∃ o ∈ (m.world.context ⟨0⟩).tracker.objects, (m.world.objects.get o).isFinalized = false :=
  ⟨⟨by decide +kernel, by decide +kernel, by decide +kernel⟩,
    fun patience _ _ _ _ _ => ⟨rfl, breeding_final patience⟩, by decide +kernel, by decide +kernel⟩

end ScriptHost
