import ScriptHost.Lifecycle.Tracker

set_option autoImplicit false

namespace ScriptHost

namespace Tracker

variable {t : Tracker} {handle : Nat} {o : ObjectId}

section Entries

variable {κ α : Type} {entries : List (κ × α)}

theorem eq_of_key (distinct : (entries.map (·.1)).Nodup) :
    ∀ e ∈ entries, ∀ e' ∈ entries, e.1 = e'.1 → e = e' :=
  have distinct := List.pairwise_map.1 distinct
  List.Pairwise.forall_of_forall_of_flip (fun _ _ _ => rfl)
    (distinct.imp fun apart same => absurd same apart)
    (distinct.imp fun apart same => absurd same.symm apart)

theorem mem_of_find? [DecidableEq κ] {key : κ} {a : α}
    (found : (entries.find? (·.1 = key)).map (·.2) = some a) : (key, a) ∈ entries := by
  obtain ⟨e, search, rfl⟩ := Option.map_eq_some_iff.1 found
  have same : e.1 = key := by simpa using List.find?_some search
  exact same ▸ List.mem_of_find?_eq_some search

theorem find?_iff [DecidableEq κ] (distinct : (entries.map (·.1)).Nodup) {key : κ} {a : α} :
    (entries.find? (·.1 = key)).map (·.2) = some a ↔ (key, a) ∈ entries := by
  refine ⟨mem_of_find?, fun member => ?_⟩
  cases search : entries.find? (·.1 = key) with
  | none => simpa using List.find?_eq_none.1 search _ member
  | some e =>
    have same : e.1 = key := by simpa using List.find?_some search
    rw [eq_of_key distinct e (List.mem_of_find?_eq_some search) _ member same]
    rfl

end Entries

theorem mem_of_object? (found : t.object? handle = some o) : (handle, o) ∈ t.entries :=
  mem_of_find? found

theorem ne_of_object?_eq_none (none : t.object? handle = none) :
    ∀ e ∈ t.entries, e.1 ≠ handle := by
  simpa [object?] using none

theorem mem_handles (member : (handle, o) ∈ t.entries) : handle ∈ t.handles :=
  List.mem_map.2 ⟨_, member, rfl⟩

theorem isSome_object? : (t.object? handle).isSome ↔ handle ∈ t.handles := by
  cases found : t.object? handle with
  | none =>
    have absent : handle ∉ t.handles := fun member =>
      have ⟨e, inside, same⟩ := List.mem_map.1 member
      ne_of_object?_eq_none found e inside same
    simp [absent]
  | some o => simp [mem_handles (mem_of_object? found)]

structure Linked (t : Tracker) : Prop where
  keyed : t.handles.Nodup
  indexed : (t.index.map (·.1)).Nodup
  inverse : ∀ handle o, (o, handle) ∈ t.index ↔ (handle, o) ∈ t.entries

structure Sound (t : Tracker) : Prop extends t.Linked where
  ascending : t.order.Pairwise (· < ·)
  listed : ∀ handle, handle ∈ t.order ↔ handle ∈ t.handles
  below : ∀ handle ∈ t.handles, handle < t.next
  positive : ∀ handle ∈ t.handles, 0 < handle
  started : 0 < t.next

theorem empty_sound : empty.Sound := by
  constructor
  · constructor <;> simp [empty, handles]
  all_goals simp [empty, handles]

theorem Sound.reclaim (sound : t.Sound) (handle : Nat) : (t.reclaim handle).Sound :=
  ⟨⟨sound.keyed, sound.indexed, sound.inverse⟩, sound.ascending, sound.listed, sound.below,
    sound.positive, sound.started⟩

namespace Linked

theorem object?_iff (linked : t.Linked) : t.object? handle = some o ↔ (handle, o) ∈ t.entries :=
  find?_iff linked.keyed

theorem handle?_iff (linked : t.Linked) : t.handle? o = some handle ↔ (handle, o) ∈ t.entries :=
  (find?_iff linked.indexed).trans (linked.inverse handle o)

theorem unique (linked : t.Linked) {d : ObjectId} (first : (handle, o) ∈ t.entries)
    (second : (handle, d) ∈ t.entries) : o = d :=
  congrArg Prod.snd (eq_of_key linked.keyed _ first _ second rfl)

theorem single (linked : t.Linked) {handle' : Nat} (first : (handle, o) ∈ t.entries)
    (second : (handle', o) ∈ t.entries) : handle = handle' :=
  congrArg Prod.snd (eq_of_key linked.indexed _ ((linked.inverse handle o).2 first) _
    ((linked.inverse handle' o).2 second) rfl)

end Linked

def without (t : Tracker) (gone : List Nat) : Tracker :=
  { t with
    entries := t.entries.filter (·.1 ∉ gone)
    index := t.index.filter (·.2 ∉ gone)
    order := t.order.filter (· ∉ gone)
    queue := [] }

theorem without_nil (t : Tracker) : t.without [] = { t with queue := [] } := by
  have entries : t.entries.filter (·.1 ∉ []) = t.entries := List.filter_eq_self.2 fun _ _ => rfl
  have index : t.index.filter (·.2 ∉ []) = t.index := List.filter_eq_self.2 fun _ _ => rfl
  have order : t.order.filter (· ∉ []) = t.order := List.filter_eq_self.2 fun _ _ => rfl
  rw [without, entries, index, order]

theorem mem_handles_without {gone : List Nat} :
    handle ∈ (t.without gone).handles ↔ handle ∈ t.handles ∧ handle ∉ gone := by
  simp [handles, without]

theorem Linked.filter (linked : t.Linked) (kept : Nat → Bool) {u : Tracker}
    (entries : u.entries = t.entries.filter (kept ·.1))
    (index : u.index = t.index.filter (kept ·.2)) : u.Linked where
  keyed := by
    rw [handles, entries]
    exact linked.keyed.sublist (List.filter_sublist.map _)
  indexed := by
    rw [index]
    exact linked.indexed.sublist (List.filter_sublist.map _)
  inverse handle o := by
    rw [entries, index, List.mem_filter, List.mem_filter]
    exact and_congr_left fun _ => linked.inverse handle o

theorem Sound.without (sound : t.Sound) (gone : List Nat) : (t.without gone).Sound where
  toLinked := sound.toLinked.filter (· ∉ gone) rfl rfl
  ascending := sound.ascending.sublist List.filter_sublist
  listed handle := by
    rw [mem_handles_without, ← sound.listed handle]
    simp [Tracker.without]
  below handle member := sound.below handle (mem_handles_without.1 member).1
  positive handle member := sound.positive handle (mem_handles_without.1 member).1
  started := sound.started

section Drain

theorem drop_entries (t : Tracker) (handle : Nat) :
    (t.drop handle).entries = t.entries.filter (·.1 ≠ handle) := by
  unfold drop
  split
  next none =>
    exact (List.filter_eq_self.2 fun e member =>
      decide_eq_true (ne_of_object?_eq_none none e member)).symm
  next => rfl

theorem drop_next (t : Tracker) (handle : Nat) : (t.drop handle).next = t.next := by
  unfold drop
  split <;> rfl

theorem foldl_drop_entries (gone : List Nat) (t : Tracker) :
    (gone.foldl drop t).entries = t.entries.filter (·.1 ∉ gone) := by
  induction gone generalizing t with
  | nil => exact (List.filter_eq_self.2 fun _ _ => rfl).symm
  | cons handle rest ih =>
    rw [List.foldl_cons, ih, drop_entries, List.filter_filter]
    exact List.filter_congr fun e _ => by simp [Bool.and_comm]

theorem foldl_drop_next (gone : List Nat) (t : Tracker) : (gone.foldl drop t).next = t.next := by
  induction gone generalizing t with
  | nil => rfl
  | cons handle rest ih => exact (ih _).trans (t.drop_next handle)

theorem drain_entries (t : Tracker) : t.drain.entries = t.entries.filter (·.1 ∉ t.queue) := by
  unfold drain
  split
  next empty =>
    rw [List.isEmpty_iff.1 empty]
    exact (List.filter_eq_self.2 fun _ _ => rfl).symm
  next => exact foldl_drop_entries t.queue _

theorem drain_next (t : Tracker) : t.drain.next = t.next := by
  unfold drain
  split
  next => rfl
  next => exact foldl_drop_next t.queue _

theorem drain_entries_sublist (t : Tracker) : t.drain.entries.Sublist t.entries := by
  rw [drain_entries]
  exact List.filter_sublist

theorem Linked.drop_eq (linked : t.Linked) (handle : Nat) :
    t.drop handle = { t with
      entries := t.entries.filter (·.1 ≠ handle)
      index := t.index.filter (·.2 ≠ handle) } := by
  unfold drop
  split
  next none =>
    have absent := ne_of_object?_eq_none none
    have entries : t.entries.filter (·.1 ≠ handle) = t.entries :=
      List.filter_eq_self.2 fun e member => decide_eq_true (absent e member)
    have index : t.index.filter (·.2 ≠ handle) = t.index :=
      List.filter_eq_self.2 fun (o, other) member => decide_eq_true
        (absent (other, o) ((linked.inverse other o).1 member))
    rw [entries, index]
  next o found =>
    have there := mem_of_object? found
    -- `drop` looks in the index for the object and in the entries for the handle: as they are
    -- linked, both are the same entry
    have index : t.index.filter (·.1 ≠ o) = t.index.filter (·.2 ≠ handle) := by
      refine List.filter_congr fun (d, other) member => ?_
      have tracked := (linked.inverse other d).1 member
      refine decide_eq_decide.2 (not_congr ⟨?_, ?_⟩)
      · rintro rfl
        exact linked.single tracked there
      · rintro rfl
        exact linked.unique tracked there
    rw [index]

theorem Linked.drop (linked : t.Linked) (handle : Nat) : (t.drop handle).Linked := by
  rw [linked.drop_eq]
  exact linked.filter (· ≠ handle) rfl rfl

theorem Linked.foldl_drop (linked : t.Linked) (gone : List Nat) :
    gone.foldl Tracker.drop t = { t.without gone with order := t.order, queue := t.queue } := by
  induction gone generalizing t with
  | nil =>
    rw [without_nil]
    rfl
  | cons handle rest ih =>
    rw [List.foldl_cons, ih (linked.drop handle), linked.drop_eq]
    simp [Tracker.without, List.filter_filter, Bool.and_comm]

theorem Sound.drain_eq (sound : t.Sound) : t.drain = t.without t.queue := by
  unfold drain
  split
  next empty =>
    have queue := List.isEmpty_iff.1 empty
    rw [queue, without_nil, ← queue]
  next =>
    have linked : Linked { t with queue := [] } := ⟨sound.keyed, sound.indexed, sound.inverse⟩
    rw [linked.foldl_drop]
    dsimp only [Tracker.without]
    congr 1
    refine List.filter_congr fun handle member => ?_
    have tracked := (sound.listed handle).1 member
    rw [Bool.eq_iff_iff, isSome_object?, decide_eq_true_iff]
    exact mem_handles_without.trans (and_iff_right tracked)

theorem Sound.drain (sound : t.Sound) : t.drain.Sound :=
  sound.drain_eq ▸ sound.without t.queue

end Drain

section Add

theorem handle?_eq_none : t.handle? o = none ↔ ∀ e ∈ t.index, e.1 ≠ o := by
  simp [handle?]

theorem Sound.enter_eq (sound : t.Sound) (fresh : t.handle? o = none) :
    t.enter o = { t with
      entries := t.entries ++ [(t.next, o)]
      index := t.index ++ [(o, t.next)]
      order := t.order ++ [t.next]
      next := t.next + 1 } := by
  have entries : t.entries.filter (·.1 ≠ t.next) = t.entries := List.filter_eq_self.2
    fun e member => decide_eq_true (Nat.ne_of_lt (sound.below e.1 (mem_handles member)))
  have index : t.index.filter (·.1 ≠ o) = t.index := List.filter_eq_self.2
    fun e member => decide_eq_true (handle?_eq_none.1 fresh e member)
  rw [enter, entries, index]

theorem Sound.enter (sound : t.Sound) (fresh : t.handle? o = none) : (t.enter o).Sound := by
  have absent := handle?_eq_none.1 fresh
  rw [sound.enter_eq fresh]
  have handles (handle : Nat) : handle ∈ (t.entries ++ [(t.next, o)]).map (·.1) ↔
      handle ∈ t.handles ∨ handle = t.next := by
    rw [List.map_append, List.mem_append, List.map_singleton, List.mem_singleton]
    rfl
  refine ⟨⟨?_, ?_, fun handle d => ?_⟩, ?_, fun handle => ?_, fun handle member => ?_,
    fun handle member => ?_, Nat.succ_pos _⟩
  · simpa [Tracker.handles, List.nodup_append] using
      ⟨sound.keyed, fun h d member => Nat.ne_of_lt (sound.below h (mem_handles member))⟩
  · simpa [List.nodup_append] using
      ⟨sound.indexed, fun d h member => absent (d, h) member⟩
  · simp [sound.inverse handle d, and_comm]
  · simpa [List.pairwise_append] using
      ⟨sound.ascending, fun h member => sound.below h ((sound.listed h).1 member)⟩
  · exact ((List.mem_append.trans (or_congr (sound.listed handle) List.mem_singleton))).trans
      (handles handle).symm
  · rcases (handles handle).1 member with old | rfl
    · exact Nat.lt_succ_of_lt (sound.below handle old)
    · exact Nat.lt_succ_self _
  · rcases (handles handle).1 member with old | rfl
    · exact sound.positive handle old
    · exact sound.started

theorem Sound.add (sound : t.Sound) (o : ObjectId) : (t.add o).2.Sound := by
  simp only [Tracker.add]
  split
  next => exact sound.drain
  next fresh => exact sound.drain.enter fresh

theorem Sound.mem_add (sound : t.Sound) (o : ObjectId) : ((t.add o).1, o) ∈ (t.add o).2.entries := by
  simp only [Tracker.add]
  split
  next handle known => exact sound.drain.handle?_iff.1 known
  next => exact List.mem_append_right _ List.mem_cons_self

theorem mem_entries_add {e : Nat × ObjectId} (member : e ∈ (t.add o).2.entries) :
    e ∈ t.entries ∨ e = (t.next, o) := by
  simp only [Tracker.add] at member
  split at member
  next => exact .inl (t.drain_entries_sublist.subset member)
  next =>
    rcases List.mem_append.1 member with kept | new
    · exact .inl (t.drain_entries_sublist.subset (List.mem_filter.1 kept).1)
    · exact .inr (t.drain_next ▸ List.mem_singleton.1 new)

theorem mem_objects_add {d : ObjectId} (member : d ∈ (t.add o).2.objects) :
    d ∈ t.objects ∨ d = o := by
  obtain ⟨e, inside, rfl⟩ := List.mem_map.1 member
  rcases mem_entries_add inside with old | rfl
  · exact .inl (List.mem_map.2 ⟨e, old, rfl⟩)
  · exact .inr rfl

end Add

structure Follows (earlier later : Tracker) : Prop where
  next : earlier.next ≤ later.next
  entries : ∀ e ∈ later.entries, e.1 < earlier.next → e ∈ earlier.entries

theorem Follows.refl (t : Tracker) : t.Follows t := ⟨Nat.le_refl _, fun _ member _ => member⟩

theorem Follows.of_eq {t u : Tracker} (same : u = t) : t.Follows u := same ▸ .refl t

theorem Follows.trans {t u v : Tracker} (first : t.Follows u) (rest : u.Follows v) :
    t.Follows v :=
  ⟨Nat.le_trans first.next rest.next, fun e member old =>
    first.entries e (rest.entries e member (Nat.lt_of_lt_of_le old first.next)) old⟩

theorem follows_reclaim (t : Tracker) (handle : Nat) : t.Follows (t.reclaim handle) :=
  ⟨Nat.le_refl _, fun _ member _ => member⟩

theorem follows_drain (t : Tracker) : t.Follows t.drain :=
  ⟨Nat.le_of_eq t.drain_next.symm, fun _ member _ => t.drain_entries_sublist.subset member⟩

theorem follows_add (t : Tracker) (o : ObjectId) : t.Follows (t.add o).2 where
  next := by
    simp only [Tracker.add]
    split
    next => exact Nat.le_of_eq t.drain_next.symm
    next => exact Nat.le_succ_of_le (Nat.le_of_eq t.drain_next.symm)
  entries e member old := by
    rcases mem_entries_add member with before | rfl
    · exact before
    · exact absurd old (Nat.lt_irrefl _)

end Tracker

end ScriptHost
