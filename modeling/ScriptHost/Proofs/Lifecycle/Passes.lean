import ScriptHost.Proofs.Embedder.Conduct

set_option autoImplicit false

namespace ScriptHost

open Run

variable {σ τ : Type} {c : ContextId}

def Call.isDestructor : Call → Bool
  | .destroyObject .. => true
  | _ => false

theorem Calls.pop_returns {w : World τ} (inside : (w.context c).depth ≠ 0) :
    pop c w = (.ok (), w.popFrame c) := by
  have popped : (w.context c).calls.pop? ≠ none := by
    intro none
    unfold CallStack.pop? at none
    split at none
    next empty => exact inside empty
    next => cases none
  rw [pop, bind_ok (context_apply w c), World.popFrame]
  cases top : (w.context c).calls.pop? with
  | none => exact absurd top popped
  | some => rfl

theorem Calls.during_ends {α : Type} {f : Frame} {body : Run τ α} {w v : World τ}
    {outcome : Except Signal α} (result : body (w.pushFrame c f) = (outcome, v))
    (inside : (v.context c).depth ≠ 0) : during c f body w = (outcome, v.popFrame c) := by
  show ensuring body (pop c) (w.pushFrame c f) = _
  rw [ensuring, result]
  dsimp only
  rw [pop_returns inside]

theorem World.IsSettled.updateTracker {w : World τ} (settled : w.IsSettled c) {f : Tracker → Tracker}
    (kept : ∀ t : Tracker, (f t).objects ⊆ t.objects) :
    (w.updateContext c fun x => { x with tracker := f x.tracker }).IsSettled c := by
  intro o member
  rw [context_updateContext] at member
  split at member
  next => exact settled o (kept _ member)
  next => exact settled o member

namespace Lifecycle

theorem finalizePass_settled (h : Host τ) {w : World τ} (settled : w.IsSettled c)
    (handles : List Nat) : finalizePass h c handles w = (.ok false, w) := by
  induction handles with
  | nil => rfl
  | cons handle rest ih =>
    obtain ⟨same, -⟩ | ⟨o, found, pending, -⟩ := finalizePass_cons h c handle rest w
    · rw [same, ih]
    · have tracked := Tracker.mem_of_object? found
      have done := settled o (List.mem_map.2 ⟨_, tracked, rfl⟩)
      exact nomatch done.symm.trans pending

section Stretch

variable {t : Stretch σ} {h : Host (Ledger σ)} (nests : h.Nests) {raises : Signal → Prop}
  (fails : ∀ m ∈ t.first.direct t.last, ∀ k o signal,
    m.event = .answered (.destroyObject k t.context o) (.error signal) → raises signal)
  {w : Recorded σ}
include nests fails

theorem visit_obeys {o : ObjectId} {handle bound : Nat} {rest : List Nat} (reached : t.Reaches w)
    (covers : Covers w t.context (handle :: rest) bound)
    (found : (w.context t.context).tracker.object? handle = some o)
    (pending : (w.objects.get o).isFinalized = false) :
    (visit h t.context handle o).Obeys t Call.isDestructor raises w := by
  obtain ⟨known, first, course, -⟩ := covers.visits nests.follows reached.ready found pending
  -- the object is pending, so that nothing is said about what was settled before
  have unsettled : ¬ w.IsSettled t.context := fun settled => by
    have done := settled o (List.mem_map.2 ⟨_, first.tracked, rfl⟩)
    exact nomatch done.symm.trans first.pending
  refine ⟨course, fun onward => ?_⟩
  obtain ⟨-, same⟩ | ⟨callback, f, -, self, same⟩ :=
    runDestructor_cases h t.context o (w.reclaim t.context handle)
  · have silent : w.direct ((w.reclaim t.context handle).markFinalized o) = [] :=
      World.direct_of_same rfl
    rw [visit_apply, same]
    exact ⟨by simp [silent], fun settled => absurd settled unsettled, nofun⟩
  · have retires : w.Retires t.context o ((w.reclaim t.context handle).markFinalized o) :=
      .visited handle found first
    have retired := reached.ready.later (reached.ready.sound.retire retires) retires.extends
      retires.running
    have named : f.IsKnown ((w.reclaim t.context handle).markFinalized o) :=
      .extend retires.extends (.of_self self known)
    obtain ⟨outcome, v, answered, -, direct⟩ :=
      nests.answered (.destroyObject callback t.context o) (retired.pushFrame t.context named)
    have ended : (visit h t.context handle o w).2 =
        (v.note (.answered (.destroyObject callback t.context o) outcome)).popFrame t.context := by
      rw [visit_apply, same, Calls.during_apply,
        show h.destroyObject callback t.context o _ = _ from answered]
    have whole : w.direct (visit h t.context handle o w).2 =
        (((w.reclaim t.context handle).markFinalized o).pushFrame t.context f).direct
          (v.note (.answered (.destroyObject callback t.context o) outcome)) := by
      rw [ended]
      exact World.direct_congr rfl (congrArg Ledger.journal (World.popFrame_embedder _ _))
    rw [direct] at whole
    have within := reached.within course onward
    rw [whole] at within
    have last := within _ (List.mem_cons_of_mem _ List.mem_cons_self)
    have fair := t.fair _ last
    simp only [Moment.isFair, Bool.and_eq_true, bne_iff_ne] at fair
    have inside : ((v.note (.answered (.destroyObject callback t.context o) outcome)).context
      t.context).depth ≠ 0 := fair.2
    have result : (visit h t.context handle o w).1 = outcome := by
      rw [visit_apply, same]
      exact congrArg Prod.fst (Calls.during_ends answered inside)
    refine ⟨?_, fun settled => absurd settled unsettled, fun signal raised => ?_⟩
    · rw [whole]
      intro m member call asked
      cases (Event.call?_of_pair member).symm.trans asked
      rfl
    · rw [result] at raised
      subst raised
      exact fails _ last callback o signal rfl

theorem finalizePass_obeys {handles : List Nat} {bound : Nat} (reached : t.Reaches w)
    (covers : Covers w t.context handles bound) :
    (finalizePass h t.context handles).Obeys t Call.isDestructor raises w := by
  induction handles generalizing w with
  | nil => exact .pure _
  | cons handle rest ih =>
    obtain ⟨same, done⟩ | ⟨o, found, pending, same⟩ := finalizePass_cons h t.context handle rest w
    · exact .congr same (ih reached (covers.skips reached.ready.sound done))
    · obtain ⟨-, -, -, left⟩ := covers.visits nests.follows reached.ready found pending
      have visiting := visit_obeys nests fails reached covers found pending
      refine .congr same (.bind reached visiting fun _ u visited reached => ?_)
      rw [visited] at left
      exact .bind reached (ih reached left) fun _ _ _ _ => .pure _

theorem finalizeRounds_obeys {rounds bound : Nat} (reached : t.Reaches w)
    (clear : ∀ e ∈ (w.context t.context).tracker.entries,
      (w.objects.get e.2).isFinalized = false → bound ≤ e.1)
    (enough : (t.last.context t.context).tracker.next - bound < rounds) :
    (finalizeRounds h t.context rounds).Obeys t Call.isDestructor raises w := by
  -- each pass moves the bound up to the handle that was next at its start
  induction rounds generalizing w bound with
  | zero => exact absurd enough (Nat.not_lt_zero _)
  | succ rounds ih =>
    have kept (x : Tracker) : x.drain.objects ⊆ x.objects :=
      ((Tracker.drain_entries_sublist x).map _).subset
    have drained : (modifyTracker t.context Tracker.drain).Obeys t Call.isDestructor raises w :=
      .of_silent (.change (.drain w t.context (reached.ready.acts _ rfl))) rfl rfl fun settled =>
        settled.updateTracker kept
    refine .bind reached drained fun _ v same reached => ?_
    have emptied : ∀ e ∈ (v.context t.context).tracker.entries,
        (v.objects.get e.2).isFinalized = false → bound ≤ e.1 := by
      cases same
      intro e member pending
      refine clear e ?_ pending
      rw [World.context, Pool.get_modify] at member
      split at member
      next => exact (Tracker.drain_entries_sublist _).subset member
      next => exact member
    refine .bind reached (.context _) fun x v' same reached => ?_
    cases same
    have covers := Covers.start reached.ready.sound t.context
    refine .bind reached (finalizePass_obeys nests fails reached covers) fun again u passed reached' => ?_
    split
    next more =>
      have rest := finalizeRounds_follows nests.follows t.context rounds _ u reached'.ready
      refine ⟨rest, fun onward => ?_⟩
      -- something was left to destroy, behind a handle between the bound and the next one
      have unsettled : ¬ v.IsSettled t.context := fun settled => by
        rw [finalizePass_settled h settled] at passed
        cases passed
        cases more
      obtain ⟨e, member, pending⟩ : ∃ e ∈ (v.context t.context).tracker.entries,
          (v.objects.get e.2).isFinalized = false := by
        apply Classical.byContradiction
        intro nothing
        apply unsettled
        intro o tracked
        obtain ⟨e, member, rfl⟩ := List.mem_map.1 tracked
        cases alive : (v.objects.get e.2).isFinalized with
        | true => rfl
        | false => exact absurd ⟨e, member, alive⟩ nothing
      have above := emptied e member pending
      have below := (reached.ready.sound.contexts t.context).tracker.below e.1
        (Tracker.mem_handles member)
      have passing := finalizePass_course nests.follows reached.ready covers
      rw [show (finalizePass h t.context (v.context t.context).tracker.order v).2 = u from
        congrArg Prod.snd passed] at passing
      have given := (((passing.trans rest).trans onward).extends.contexts t.context
        reached.present).2.tracker.next
      have left := finalizePass_covers nests.follows reached.ready covers passed
      have beyond : ∀ e ∈ (u.context t.context).tracker.entries,
          (u.objects.get e.2).isFinalized = false → (v.context t.context).tracker.next ≤ e.1 :=
        fun e member pending => (left.pending e member pending).resolve_left List.not_mem_nil
      exact (ih reached' beyond (by omega)).yields onward
    next => exact .pure _

theorem finalize_obeys (patient : (t.last.context t.context).tracker.next < h.patience)
    (reached : t.Reaches w) : (finalize h t.context).Obeys t Call.isDestructor raises w :=
  finalizeRounds_obeys nests fails reached (fun _ _ _ => Nat.zero_le _) (by rwa [Nat.sub_zero])

end Stretch

end Lifecycle

end ScriptHost
