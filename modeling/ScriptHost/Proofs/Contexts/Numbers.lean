import ScriptHost.Proofs.Contexts.Roll

set_option autoImplicit false

namespace ScriptHost

variable {σ τ : Type}

namespace IdAllocator

def Covers (x : IdAllocator) (used : List Nat) : Prop := (used ++ x.free).Perm (List.range x.next)

namespace Covers

variable {x : IdAllocator} {used : List Nat}

theorem length (covers : x.Covers used) : used.length + x.free.length = x.next := by
  have same := List.Perm.length_eq covers
  rwa [List.length_append, List.length_range] at same

theorem inUse (covers : x.Covers used) : x.inUse = used.length := by
  have sum := covers.length
  unfold IdAllocator.inUse
  omega

theorem length_le (covers : x.Covers used) : used.length ≤ x.next :=
  covers.length ▸ Nat.le_add_right ..

theorem nodup (covers : x.Covers used) : (used ++ x.free).Nodup :=
  (List.Perm.nodup_iff covers).2 List.nodup_range

theorem mem_iff (covers : x.Covers used) (n : Nat) : n ∈ used ∨ n ∈ x.free ↔ n < x.next := by
  rw [← List.mem_append, List.Perm.mem_iff covers, List.mem_range]

theorem acquire (covers : x.Covers used) : x.acquire.2.Covers (used ++ [x.acquire.1]) := by
  unfold Covers IdAllocator.acquire at *
  split
  next n rest free =>
    rw [free] at covers
    rwa [List.append_assoc]
  next free =>
    rw [free, List.append_nil] at covers
    dsimp only
    rw [free, List.append_nil, List.range_succ]
    exact covers.append_right _

theorem release {n : Nat} {rest : List Nat} (covers : x.Covers used)
    (gives : used.Perm (n :: rest)) : (x.release n).Covers rest :=
  List.perm_middle.trans ((gives.append_right x.free).symm.trans covers)

theorem acquire_next (covers : x.Covers used) :
    x.acquire.2.next = max x.next (used.length + 1) := by
  have sum := covers.length
  unfold IdAllocator.acquire
  split
  next n rest free =>
    rw [free, List.length_cons] at sum
    dsimp only
    omega
  next free =>
    rw [free, List.length_nil] at sum
    dsimp only
    omega

end Covers

end IdAllocator

def Operation.handles (a : AllocatorId) : Operation → Bool
  | acquire b | release b _ => b = a
  | _ => false

namespace Roll

variable {asked : Option Operation} {r r' : Roll} {a : AllocatorId} {c : ContextId} {s : ScopeId}

def holds (r : Roll) (a : AllocatorId) (c : ContextId) : Bool :=
  !(r.contexts.get c).isClosed && r.idsOf (r.contexts.get c).scope = a

def live (r : Roll) (a : AllocatorId) : List ContextId := r.contexts.ids.filter (r.holds a)

def numbers (r : Roll) (a : AllocatorId) : List Nat :=
  (r.live a).map fun c => (r.contexts.get c).number

theorem numbers_enlist (r : Roll) (s : ScopeId) (a : AllocatorId) :
    (r.enlist s).numbers a = r.numbers a ++
      if r.idsOf s = a then [(r.allocators.get a).acquire.1] else [] := by
  have old {c : ContextId} (there : c ∈ r.contexts.ids) :
      (r.enlist s).contexts.get c = r.contexts.get c :=
    Pool.get_add_of_has _ _ (Pool.mem_ids.1 there)
  have new : (r.enlist s).contexts.get r.contexts.next =
      ⟨s, (r.allocators.get (r.idsOf s)).acquire.1, false, ⟨r.tables⟩⟩ := Pool.get_add_next ..
  have kept : r.contexts.ids.filter ((r.enlist s).holds a) = r.live a :=
    List.filter_congr fun c there => by rw [holds, old there]; rfl
  have numbered : (r.live a).map (fun c => ((r.enlist s).contexts.get c).number) = r.numbers a :=
    List.map_congr_left fun c there => by rw [old (List.mem_filter.1 there).1]
  have added : (r.enlist s).holds a r.contexts.next = decide (r.idsOf s = a) := by
    rw [holds, new]
    rfl
  unfold numbers live
  rw [show (r.enlist s).contexts.ids = _ from Pool.ids_add .., List.filter_append, kept,
    List.map_append, numbered]
  congr 1
  by_cases here : r.idsOf s = a
  · simp [added, new, here]
  · simp [added, here]

theorem numbers_close (there : r.contexts.has c) (isOpen : (r.contexts.get c).isClosed = false) :
    if r.idsOf (r.contexts.get c).scope = a
    then (r.numbers a).Perm ((r.contexts.get c).number :: (r.close c).numbers a)
    else (r.close c).numbers a = r.numbers a := by
  have held (d : ContextId) : (r.close c).holds a d = (r.holds a d && d ≠ c) := by
    have closed : ((r.close c).contexts.get d).isClosed =
        if c = d ∧ r.contexts.has c then true else (r.contexts.get d).isClosed := by
      rw [show (r.close c).contexts.get d = _ from Pool.get_modify ..]
      split <;> rfl
    rw [holds, closed, scope_close, holds]
    by_cases here : d = c
    · simp [here, there]
    · rw [if_neg fun both => here both.1.symm, decide_eq_true here, Bool.and_true]
      rfl
  have numbered : (r.close c).numbers a =
      ((r.live a).filter (· ≠ c)).map fun d => (r.contexts.get d).number := by
    unfold numbers live
    rw [show (r.close c).contexts.ids = _ from Pool.ids_modify .., List.filter_filter,
      List.filter_congr (fun d _ => (held d).trans (Bool.and_comm ..))]
    exact List.map_congr_left fun d _ =>
      r.contexts.modify_keeps c d _ Context.Lease.number fun _ => rfl
  split
  next own =>
    have member : c ∈ r.live a :=
      List.mem_filter.2 ⟨Pool.mem_ids.2 there, by simp [holds, isOpen, own]⟩
    have distinct : (r.live a).Nodup := r.contexts.nodup_ids.filter _
    have erased : (r.live a).erase c = (r.live a).filter (· ≠ c) := by
      rw [distinct.erase_eq_filter]
      exact List.filter_congr fun d _ => decide_not.symm
    rw [numbered, ← erased]
    exact (List.perm_cons_erase member).map fun d => (r.contexts.get d).number
  next other =>
    rw [numbered, List.filter_eq_self.2]
    · rfl
    · intro d member
      refine decide_eq_true fun here => other ?_
      have holds := (List.mem_filter.1 (here ▸ member)).2
      exact of_decide_eq_true (Bool.and_eq_true_iff.1 holds).2

theorem Step.numbers (step : Step asked r r') (laidOut : r.IsLaidOut)
    (spared : ∀ o, asked = some o → o.handles a = false) :
    r'.numbers a = r.numbers a ∧ r'.allocators.get a = r.allocators.get a ∨
    asked.any Operation.creates ∧
      r'.numbers a = r.numbers a ++ [(r.allocators.get a).acquire.1] ∧
      r'.allocators.get a = (r.allocators.get a).acquire.2 ∨
    ∃ n, asked.any Operation.creates = false ∧ (r.numbers a).Perm (n :: r'.numbers a) ∧
      r'.allocators.get a = (r.allocators.get a).release n := by
  cases step with
  | same | newTable | newObject => exact .inl ⟨rfl, rfl⟩
  | newScope t =>
    -- the scopes of the contexts have been there before
    refine .inl ⟨?_, rfl⟩
    have same : r.contexts.ids.filter (Roll.holds { r with scopes := r.scopes.add t } a) =
        r.live a := by
      refine List.filter_congr fun c there => ?_
      have housed := laidOut.housed c (Pool.mem_ids.1 there)
      simp only [holds, idsOf, Pool.get_add_of_has _ _ housed]
      rfl
    exact congrArg (List.map _) same
  | newAllocator =>
    refine .inl ⟨rfl, ?_⟩
    show (r.allocators.add .empty).get a = _
    rw [Pool.get_add]
    split
    next here =>
      rw [Pool.get_of_not_has _ fun known => Pool.ne_next_of_has _ known here]
      rfl
    next => rfl
  | taken b running | given b id running =>
    have apart : b ≠ a := of_decide_eq_false (spared _ running)
    exact .inl ⟨rfl, Pool.get_modify_of_ne _ _ apart⟩
  | enlisted s known creates =>
    have numbers := numbers_enlist r s a
    by_cases own : r.idsOf s = a
    · refine .inr (.inl ⟨creates, by rwa [if_pos own] at numbers, ?_⟩)
      subst own
      exact Pool.get_modify_self _ _ _ (laidOut.numbered s known)
    · rw [if_neg own, List.append_nil] at numbers
      exact .inl ⟨numbers, Pool.get_modify_of_ne _ _ own⟩
  | closed c action there isOpen running =>
    have numbers := numbers_close (a := a) there isOpen
    by_cases own : r.idsOf (r.contexts.get c).scope = a
    · refine .inr (.inr ⟨_, by rw [running]; rfl, by rwa [if_pos own] at numbers, ?_⟩)
      subst own
      exact Pool.get_modify_self _ _ _ (laidOut.numbered _ (laidOut.housed c there))
    · rw [if_neg own] at numbers
      exact .inl ⟨numbers, Pool.get_modify_of_ne _ _ own⟩

end Roll

def Moment.handles (a : AllocatorId) (m : Moment σ) : Bool :=
  m.running.any (·.handles a) ||
    match m.event with
    | .finished o _ => o.handles a
    | _ => false

namespace World

variable {w w' : Recorded σ} {a : AllocatorId}

def live (w : World τ) (a : AllocatorId) : List ContextId :=
  w.contexts.ids.filter fun c => !(w.context c).isClosed && (w.scopeOf c).ids = a

def numbers (w : World τ) (a : AllocatorId) : List Nat :=
  (w.live a).map fun c => (w.context c).number

theorem mem_live {w : World τ} {c : ContextId} : c ∈ w.live a ↔
    w.contexts.has c ∧ (w.context c).isClosed = false ∧ (w.scopeOf c).ids = a := by
  simp [live, Pool.mem_ids]

theorem live_roll (w : World τ) (a : AllocatorId) : w.roll.live a = w.live a := by
  unfold Roll.live live
  rw [show w.roll.contexts.ids = _ from Pool.ids_map ..]
  exact List.filter_congr fun c _ => by
    rw [Roll.holds, w.lease_roll, w.idsOf_roll]
    rfl

theorem numbers_roll (w : World τ) (a : AllocatorId) : w.roll.numbers a = w.numbers a := by
  unfold Roll.numbers numbers
  rw [w.live_roll]
  exact List.map_congr_left fun c _ => congrArg _ (w.lease_roll c)

structure Spares (w : Recorded σ) (a : AllocatorId) : Prop where
  running : ∀ o ∈ w.embedder.running, o.handles a = false
  journal : ∀ m ∈ w.embedder.journal, m.handles a = false

structure IsDense (w : Recorded σ) (a : AllocatorId) : Prop where
  covers : (w.allocators.get a).Covers (w.numbers a)
  bounded : ∀ m ∈ w.embedder.journal, (m.world.numbers a).length ≤ (w.allocators.get a).next
  reached : (w.allocators.get a).next = 0 ∨
    (∃ m ∈ w.embedder.journal, (m.world.numbers a).length = (w.allocators.get a).next) ∨
    w.embedder.running.head?.any Operation.creates ∧
      (w.numbers a).length = (w.allocators.get a).next

namespace IsDense

theorem step (dense : w.IsDense a) (laidOut : w.roll.IsLaidOut)
    (spared : ∀ o, w.embedder.running.head? = some o → o.handles a = false)
    (step : Roll.Step w.embedder.running.head? w.roll w'.roll)
    (journal : w'.embedder.journal = w.embedder.journal)
    (running : w'.embedder.running = w.embedder.running) : w'.IsDense a := by
  obtain ⟨covers, bounded, reached⟩ := dense
  have step := step.numbers laidOut spared
  rw [numbers_roll, numbers_roll] at step
  change _ ∧ w'.allocators.get a = w.allocators.get a ∨
    _ ∧ _ ∧ w'.allocators.get a = (w.allocators.get a).acquire.2 ∨
    ∃ n, _ ∧ _ ∧ w'.allocators.get a = (w.allocators.get a).release n at step
  rcases step with ⟨numbers, same⟩ | ⟨creates, numbers, taken⟩ | ⟨n, quiet, numbers, given⟩
  · refine ⟨?_, ?_, ?_⟩ <;> rw [same]
    · rwa [numbers]
    · rwa [journal]
    · rwa [journal, running, numbers]
  -- a number is handed out: one that was given back, or else the next one
  · have next := covers.acquire_next
    refine ⟨?_, ?_, ?_⟩ <;> rw [taken]
    · rw [numbers]
      exact covers.acquire
    · rw [journal, next]
      exact fun m member => Nat.le_trans (bounded m member) (Nat.le_max_left ..)
    · -- either there have been as many contexts before, or there are so now
      rw [journal, running, numbers, List.length_append, List.length_singleton, next]
      rcases Nat.lt_or_ge (w.numbers a).length (w.allocators.get a).next with less | full
      · rw [Nat.max_eq_left less]
        rcases reached with none | before | ⟨-, now⟩
        · exact .inl none
        · exact .inr (.inl before)
        · exact absurd now (Nat.ne_of_lt less)
      · rw [Nat.max_eq_right (Nat.le_succ_of_le full)]
        exact .inr (.inr ⟨creates, rfl⟩)
  · refine ⟨?_, ?_, ?_⟩ <;> rw [given]
    · exact covers.release numbers
    · rwa [journal]
    · rw [journal]
      -- giving back is no making of a context, so the count was reached at a moment on record
      rcases reached with none | before | ⟨creates, -⟩
      · exact .inl none
      · exact .inr (.inl before)
      · rw [quiet] at creates
        cases creates

theorem record (dense : w.IsDense a) (running : List Operation) (event : Event) :
    ({ w with embedder := { w.embedder with running } }.note event).IsDense a where
  covers := dense.covers
  bounded m member := by
    rcases List.mem_append.1 member with old | new
    · exact dense.bounded m old
    · rw [List.mem_singleton.1 new]
      exact dense.covers.length_le
  reached := by
    rcases dense.reached with none | ⟨m, member, before⟩ | ⟨-, now⟩
    · exact .inl none
    · exact .inr (.inl ⟨m, List.mem_append_left _ member, before⟩)
    · exact .inr (.inl ⟨_, List.mem_append_right _ List.mem_cons_self, now⟩)

theorem begin (dense : w.IsDense a) (o : Operation) (sampled : w.IsSampled) :
    (w.begin o).IsDense a where
  covers := dense.covers
  bounded := dense.bounded
  reached := by
    rcases dense.reached with none | before | ⟨-, now⟩
    · exact .inl none
    · exact .inr (.inl before)
    · -- nothing has changed since the last moment on record
      rcases sampled.on_record with empty | ⟨m, member, own, same⟩
      · refine .inl (now.symm.trans ?_)
        rw [numbers, List.length_map, List.length_eq_zero_iff, List.eq_nil_iff_forall_not_mem]
        exact fun c live => empty c (mem_live.1 live).1
      · have numbers : w.numbers a = m.world.numbers a := by
          show w.unrecorded.numbers a = _
          rw [same]
          rfl
        exact .inr (.inl ⟨m, member, numbers ▸ now⟩)

end IsDense

theorem Spares.before (spared : w'.Spares a) (journal : w.embedder.journal <+: w'.embedder.journal)
    (running : ∀ o ∈ w.embedder.running, o ∈ w'.embedder.running) : w.Spares a :=
  ⟨fun o member => spared.running o (running o member),
    fun m member => spared.journal m (journal.subset member)⟩

theorem dense_kept (a : AllocatorId) : IsKept fun w : Recorded σ =>
    w.roll.IsLaidOut ∧ (w.Spares a → w.IsDense a) where
  step {w w'} holds step journal running := by
    refine ⟨step.laidOut holds.1, fun spared => ?_⟩
    have early : w.Spares a := ⟨running ▸ spared.running, journal ▸ spared.journal⟩
    exact (holds.2 early).step holds.1
      (fun o asked => early.running o (List.mem_of_head? asked)) step journal running
  note event _ holds := ⟨holds.1, fun spared =>
    (holds.2 (spared.before (List.prefix_append _ _) fun _ => id)).record _ event⟩
  begin o sampled holds := ⟨holds.1, fun spared =>
    (holds.2 (spared.before List.prefix_rfl fun _ => List.mem_cons_of_mem _)).begin o sampled⟩
  finish {w w'} o outcome _ course _ holds := by
    refine ⟨holds.1, fun spared => (holds.2 ⟨fun p member => ?_, fun m member => ?_⟩).record _ _⟩
    · rw [course.running] at member
      rcases List.mem_cons.1 member with rfl | outer
      · have last := spared.journal ⟨.finished p outcome, w.embedder.running, w'.unrecorded⟩
          (List.mem_append_right _ List.mem_cons_self)
        exact (Bool.or_eq_false_iff.1 last).2
      · exact spared.running p outer
    · exact spared.journal m (List.mem_append_left _ member)

theorem start_dense (files : FileTree) (own : σ) (a : AllocatorId) :
    (World.start files own).IsDense a := by
  have bare : (World.start files own).allocators.get a = .empty := Pool.get_of_not_has _ nofun
  have none : (World.start files own).numbers a = [] := rfl
  refine ⟨?_, List.forall_mem_nil _, ?_⟩ <;> rw [bare]
  · rw [none]
    exact List.Perm.refl _
  · exact .inl rfl

structure IsAccounted (w : Recorded σ) : Prop where
  handedOut : ∀ c, w.contexts.has c →
    w.HasHandedOut c ∨ w.embedder.running.any Operation.creates
  there : ∀ m ∈ w.embedder.journal, ∀ c, m.event.returned = some c → w.contexts.has c

theorem accounted_kept : IsKept fun w : Recorded σ => w.IsAccounted where
  step {w w'} holds step journal running := by
    refine ⟨fun c there => ?_, fun m member c returned => ?_⟩
    · rw [HasHandedOut, journal, running]
      rcases step.new_context ((w'.has_roll c).trans there) with old | creates
      · exact holds.handedOut c ((w.has_roll c).symm.trans old)
      · obtain ⟨o, asked, creates⟩ := (Option.any_eq_true _ _).1 creates
        exact .inr (List.any_eq_true.2 ⟨o, List.mem_of_head? asked, creates⟩)
    · have old := holds.there m (journal ▸ member) c returned
      exact (w'.has_roll c).symm.trans (step.has_context ((w.has_roll c).trans old))
  note {w} event other holds := by
    refine ⟨fun c there => ?_, fun m member c returned => ?_⟩
    · exact (holds.handedOut c there).imp_left (·.later (List.prefix_append _ _))
    · rcases List.mem_append.1 member with old | new
      · exact holds.there m old c returned
      · rw [List.mem_singleton.1 new] at returned
        cases event with
        | finished => cases other
        | _ => cases returned
  begin o _ holds :=
    ⟨fun c there => (holds.handedOut c there).imp_right fun outer => by
      rw [World.begin, List.any_cons, outer, Bool.or_true], holds.there⟩
  finish {w w'} o outcome before course delivers holds := by
    refine ⟨fun c there => ?_, fun m member c returned => ?_⟩
    -- the contexts that are there came before the operation, or are its own, or were handed out
    -- inside of it
    · have known : w.contexts.has c ∨
          (w'.finish w.embedder.running o outcome).HasHandedOut c := by
        cases creates : o.creates with
        | true => exact delivers.handedOut creates there _
        | false =>
          exact (course.handedOut (fun _ => creates) there).imp_right
            (·.later (List.prefix_append _ _))
      rcases known with old | out
      · exact (before.handedOut c old).imp_left
          (·.later (course.journal.trans (List.prefix_append _ _)))
      · exact .inl out
    · rcases List.mem_append.1 member with old | new
      · exact holds.there m old c returned
      · rw [List.mem_singleton.1 new] at returned
        exact (delivers.makes returned).there

theorem start_accounted (files : FileTree) (own : σ) : (World.start files own).IsAccounted :=
  ⟨fun _ => nofun, List.forall_mem_nil _⟩

end World

section Script

variable {ρ : Type} {s : Script σ} {depth : Nat} {code : Code σ ρ} {files : FileTree} {own : σ}
  {before after : List (Moment σ)} {e : Moment σ}

theorem Script.dense_at (split : s.journal depth code files own = before ++ e :: after)
    {a : AllocatorId} (spared : ∀ m ∈ before ++ [e], m.handles a = false) :
    (e.recall (before ++ [e])).IsDense a := by
  have holds := Script.at_moment (World.dense_kept a)
    ⟨World.start_laidOut files own, fun _ => World.start_dense files own a⟩ split
  refine holds.2 ⟨fun o member => ?_, spared⟩
  have handles := spared e (List.mem_append_right _ List.mem_cons_self)
  have within := List.any_eq_false.1 (Bool.or_eq_false_iff.1 handles).1 o member
  exact Bool.eq_false_iff.2 within

end Script

/-- Numbers are distinct and used densely. Whenever something happens, the numbers of the contexts
that are open on the scopes of one allocator are pairwise distinct, none of them has been given
back, and with those given back, each once, they are all below the next one. That is the greatest
count of contexts that have been open at the same time. It needs that the allocator is left to the
contexts. -/
theorem Script.numbers_dense {ρ : Type} (s : Script σ) (depth : Nat) (code : Code σ ρ)
    (files : FileTree) (own : σ) {before after : List (Moment σ)} {e : Moment σ}
    (split : s.journal depth code files own = before ++ e :: after) (a : AllocatorId)
    (spared : ∀ m ∈ before ++ [e], m.handles a = false) :
    (e.world.numbers a).Nodup ∧ (e.world.allocators.get a).free.Nodup ∧
    (∀ n ∈ e.world.numbers a, n ∉ (e.world.allocators.get a).free) ∧
    (∀ n, n ∈ e.world.numbers a ∨ n ∈ (e.world.allocators.get a).free ↔
      n < (e.world.allocators.get a).next) ∧
    (∃ m ∈ before ++ [e], (m.world.live a).length = (e.world.allocators.get a).next) ∧
    ∀ m ∈ before ++ [e], (m.world.live a).length ≤ (e.world.allocators.get a).next := by
  obtain ⟨covers, bounded, reached⟩ := Script.dense_at split spared
  obtain ⟨distinct, free, apart⟩ := List.nodup_append.1 covers.nodup
  have count (w : World σ) : (w.numbers a).length = (w.live a).length := List.length_map ..
  have last : e ∈ before ++ [e] := List.mem_append_right _ List.mem_cons_self
  refine ⟨distinct, free, fun n used given => apart n used n given rfl, covers.mem_iff, ?_,
    fun m member => (count m.world).symm ▸ bounded m member⟩
  rcases reached with none | ⟨m, member, before⟩ | ⟨-, now⟩
  · have now := bounded e last
    exact ⟨e, last, (count e.world).symm.trans (Nat.le_antisymm now (none ▸ Nat.zero_le _))⟩
  · exact ⟨m, member, (count m.world).symm.trans before⟩
  · exact ⟨e, last, (count e.world).symm.trans now⟩

def turnover : List (Moment Unit) :=
  Script.journal ⟨1, fun _ => .done (.error .exhausted)⟩ 1
    (.each () [.newAllocator, .newScope { ids := ⟨0⟩ }, .newScope { ids := ⟨0⟩ }, .newSink {},
      .newContext ⟨0⟩ ⟨0⟩ {}, .newContext ⟨1⟩ ⟨0⟩ {}, .newContext ⟨0⟩ ⟨0⟩ {}, .act ⟨0⟩ .close,
      .act ⟨0⟩ .close, .act ⟨2⟩ .shutdown, .newContext ⟨1⟩ ⟨0⟩ {}])
    (FileTree.make "/") ()

theorem turnover_ends : ∃ before e after, turnover = before ++ e :: after ∧
    (∀ m ∈ before ++ [e], m.handles ⟨0⟩ = false ∧ m.event.isLoss = false) ∧
    e.running.any Operation.creates = false ∧ e.world.live ⟨0⟩ = [⟨1⟩, ⟨3⟩] ∧
    e.world.numbers ⟨0⟩ = [1, 2] ∧ e.world.allocators.get ⟨0⟩ = ⟨[0], 3⟩ := by
  have orderly : ∀ m ∈ turnover, m.handles ⟨0⟩ = false ∧ m.event.isLoss = false := by
    decide +kernel
  obtain ⟨e, holds, split⟩ := split_at
    (show turnover[10]?.any fun e => e.running.any Operation.creates = false ∧
      e.world.live ⟨0⟩ = [⟨1⟩, ⟨3⟩] ∧ e.world.numbers ⟨0⟩ = [1, 2] ∧
      e.world.allocators.get ⟨0⟩ = ⟨[0], 3⟩ by decide +kernel)
  exact ⟨_, e, _, split, fun m member => orderly m (split ▸ mem_of_mem_concat member),
    of_decide_eq_true holds⟩

theorem numbers_dense_turnover :
    ∃ before e after, turnover = before ++ e :: after ∧
      (∀ m ∈ before ++ [e], m.handles ⟨0⟩ = false) ∧ e.world.numbers ⟨0⟩ = [1, 2] ∧
      (e.world.allocators.get ⟨0⟩).free = [0] ∧
      ∃ m ∈ before ++ [e], (m.world.live ⟨0⟩).length = 3 := by
  obtain ⟨before, e, after, split, orderly, -, -, numbers, allocator⟩ := turnover_ends
  have spared := fun m member => (orderly m member).1
  obtain ⟨m, member, peak⟩ := (Script.numbers_dense _ _ _ _ _ split ⟨0⟩ spared).2.2.2.2.1
  rw [allocator] at peak
  exact ⟨before, e, after, split, spared, numbers, by rw [allocator], m, member, peak⟩

/-- As many numbers are in use as contexts are open. If no context has been lost while it was made,
and none is being made, these are the contexts that have been returned and that are not closed. -/
theorem Script.numbers_in_use {ρ : Type} (s : Script σ) (depth : Nat) (code : Code σ ρ)
    (files : FileTree) (own : σ) {before after : List (Moment σ)} {e : Moment σ}
    (split : s.journal depth code files own = before ++ e :: after) (a : AllocatorId)
    (spared : ∀ m ∈ before ++ [e], m.handles a = false) :
    (e.world.allocators.get a).inUse = (e.world.live a).length ∧ (e.world.live a).Nodup ∧
    ((∀ m ∈ before ++ [e], m.event.isLoss = false) → e.running.any Operation.creates = false →
      ∀ c, c ∈ e.world.live a ↔ (∃ m ∈ before ++ [e], m.event.returned = some c) ∧
        (e.world.context c).isClosed = false ∧ (e.world.scopeOf c).ids = a) := by
  have dense := Script.dense_at split spared
  refine ⟨dense.covers.inUse.trans (congrArg _ (List.length_map ..)),
    e.world.contexts.nodup_ids.filter _, fun safe still c => ?_⟩
  obtain ⟨handedOut, there⟩ :=
    Script.at_moment World.accounted_kept (World.start_accounted files own) split
  rw [World.mem_live]
  refine and_congr_left fun _ =>
    ⟨fun known => ?_, fun ⟨m, member, returned⟩ => there m member c returned⟩
  rcases handedOut c known with ⟨m, member, returned | loss⟩ | creates
  · exact ⟨m, member, returned⟩
  · rw [safe m member] at loss
    cases loss
  · rw [show (e.recall (before ++ [e])).embedder.running.any Operation.creates = _ from still]
      at creates
    cases creates

theorem numbers_in_use_turnover :
    ∃ before e after, turnover = before ++ e :: after ∧
      (∀ m ∈ before ++ [e], m.handles ⟨0⟩ = false ∧ m.event.isLoss = false) ∧
      e.running.any Operation.creates = false ∧ (e.world.allocators.get ⟨0⟩).inUse = 2 ∧
      ∃ m ∈ before ++ [e], m.event.returned = some ⟨3⟩ := by
  obtain ⟨before, e, after, split, orderly, still, live, -⟩ := turnover_ends
  obtain ⟨inUse, -, exactly⟩ :=
    Script.numbers_in_use _ _ _ _ _ split ⟨0⟩ fun m member => (orderly m member).1
  have member : (⟨3⟩ : ContextId) ∈ e.world.live ⟨0⟩ := live ▸ by decide
  exact ⟨before, e, after, split, orderly, still, by rw [inUse, live]; rfl,
    ((exactly (fun m member => (orderly m member).2) still ⟨3⟩).1 member).1⟩

def spoiled : List (Moment Unit) :=
  Script.journal ⟨1, fun _ => .done (.error (.failure .fault))⟩ 1
    (.each () [.newAllocator, .newScope { ids := ⟨0⟩, extensions := [⟨0⟩] }, .newSink {},
      .newContext ⟨0⟩ ⟨0⟩ {}])
    (FileTree.make "/") ()

theorem number_lost_with_context :
    (∀ m ∈ spoiled, m.handles ⟨0⟩ = false ∧ m.event.returned = none) ∧
    ∃ e ∈ spoiled.getLast?, e.running.isEmpty ∧ (e.world.allocators.get ⟨0⟩).inUse = 1 := by
  decide +kernel

end ScriptHost
