import ScriptHost.CallStack

set_option autoImplicit false

namespace ScriptHost.CallStack

variable {α : Type} {s : CallStack α} {items : List α} {a : α}

structure Holds (s : CallStack α) (items : List α) : Prop where
  roomy : 0 < s.slots.size
  depth : s.depth = items.length
  slots : s.slots.toList.take items.length = items.map some

theorem holds_empty : (empty : CallStack α).Holds [] where
  roomy := by simp [empty, initialCapacity]
  depth := rfl
  slots := rfl

namespace Holds

theorem toList (holds : s.Holds items) : s.toList = items := by
  rw [CallStack.toList, holds.depth, holds.slots, List.filterMap_map]
  exact List.filterMap_some

theorem length_le (holds : s.Holds items) : items.length ≤ s.slots.size := by
  have taken := congrArg List.length holds.slots
  simp only [List.length_take, Array.length_toList, List.length_map] at taken
  omega

theorem getElem? (holds : s.Holds items) {i : Nat} (inside : i < items.length) :
    s.slots[i]? = some items[i]? := by
  have there := congrArg (·[i]?) holds.slots
  simp only [List.getElem?_take, if_pos inside, List.getElem?_map] at there
  rw [Array.getElem?_toList] at there
  rw [there, List.getElem?_eq_getElem inside]
  rfl

theorem push (holds : s.Holds items) (a : α) : (s.push a).Holds (items ++ [a]) := by
  have fits := holds.length_le
  have roomy := holds.roomy
  -- what is the same with and without more slots: the call goes into the first free one
  have grown (slots : Array (Option α)) (free : items.length < slots.size)
      (same : slots.toList.take items.length = items.map some) :
      Holds ⟨slots.setIfInBounds s.depth (some a), s.depth + 1⟩ (items ++ [a]) := by
    refine ⟨by simp; omega, by simp [holds.depth], ?_⟩
    rw [holds.depth, List.length_append, List.length_singleton, Array.toList_setIfInBounds,
      List.map_append, ← same, List.take_add_one, List.take_set_of_le (Nat.le_refl _)]
    simp [free]
  unfold CallStack.push
  dsimp only
  split
  next full =>
    refine grown _ ?_ ?_
    · rw [holds.depth] at full
      simp only [Array.size_append, Array.size_replicate]
      omega
    · rw [Array.toList_append, List.take_append_of_le_length (by simpa using fits), holds.slots]
  next free =>
    refine grown _ ?_ holds.slots
    rw [holds.depth] at free
    omega

theorem pop?_nil (holds : s.Holds []) : s.pop? = none := by
  rw [pop?, holds.depth]
  rfl

theorem pop?_concat (holds : s.Holds (items ++ [a])) :
    ∃ rest, s.pop? = some (some a, rest) ∧ rest.Holds items := by
  have depth : s.depth = items.length + 1 := by simpa using holds.depth
  have top : s.slots[items.length]? = some (some a) := by
    simpa using holds.getElem? (i := items.length) (by simp)
  refine ⟨⟨s.slots.setIfInBounds items.length none, items.length⟩, ?_, ?_, rfl, ?_⟩
  · simp [pop?, depth, top]
  · simpa using holds.roomy
  · have kept := congrArg (List.take items.length) holds.slots
    simpa [List.take_take, List.take_set_of_le] using kept

theorem mapFrames (holds : s.Holds items) (f : α → α) : (s.mapFrames f).Holds (items.map f) where
  roomy := by simpa [CallStack.mapFrames] using holds.roomy
  depth := by simpa [CallStack.mapFrames] using holds.depth
  slots := by
    simp only [CallStack.mapFrames, List.length_map, Array.toList_map, ← List.map_take, holds.slots,
      List.map_map]
    rfl

theorem peek (holds : s.Holds items) {distance : Int} (there : s.peek distance = some a) :
    ∃ i, items[i]? = some a ∧ ∀ f, (s.modifyAt distance f).Holds (items.modify i f) := by
  unfold CallStack.peek at there
  split at there
  next => cases there
  next inside =>
    rw [holds.depth] at inside there
    -- distances count from the top, positions from the outermost call
    have below : items.length - distance.toNat - 1 < items.length := by omega
    rw [holds.getElem? below] at there
    refine ⟨items.length - distance.toNat - 1, there, fun f => ?_⟩
    rw [CallStack.modifyAt, holds.depth, if_neg inside]
    refine ⟨by simpa using holds.roomy, by simp, List.ext_getElem? fun i => ?_⟩
    have slot := congrArg (·[i]?) holds.slots
    simp only [List.getElem?_take, List.getElem?_map, Array.getElem?_toList] at slot
    simp only [Array.toList_modify, List.length_modify, List.getElem?_take, List.getElem?_modify,
      List.getElem?_map, Array.getElem?_toList]
    by_cases within : i < items.length
    · simp only [if_pos within] at slot ⊢
      rw [slot]
      cases items[i]? <;> by_cases here : items.length - distance.toNat - 1 = i <;> simp [here]
    · simp [within]

end Holds

section Members

variable {b : α} {rest : CallStack α} {top : Option α}

theorem mem_toList : a ∈ s.toList ↔ ∃ i, i < s.depth ∧ s.slots[i]? = some (some a) := by
  have taken : a ∈ s.toList ↔ some a ∈ s.slots.toList.take s.depth := by
    simp [toList, List.mem_filterMap]
  simp [taken, List.mem_iff_getElem?, List.getElem?_take]

theorem mem_push (member : b ∈ (s.push a).toList) : b ∈ s.toList ∨ b = a := by
  obtain ⟨i, below, there⟩ := mem_toList.1 member
  unfold push at below there
  dsimp only at below there
  rw [Array.getElem?_setIfInBounds] at there
  by_cases last : s.depth = i
  next =>
    rw [if_pos last] at there
    obtain ⟨_, same⟩ := Option.ite_none_right_eq_some.1 there
    exact .inr (Option.some.inj (Option.some.inj same)).symm
  next =>
    rw [if_neg last] at there
    refine .inl (mem_toList.2 ⟨i, by omega, ?_⟩)
    -- slots that have been added are free
    split at there
    next full =>
      rw [Array.getElem?_append] at there
      split at there
      next => exact there
      next =>
        rw [Array.getElem?_replicate] at there
        split at there <;> cases there
    next => exact there

theorem mem_pop? (popped : s.pop? = some (top, rest)) (member : b ∈ rest.toList) :
    b ∈ s.toList := by
  obtain ⟨i, below, there⟩ := mem_toList.1 member
  unfold pop? at popped
  split at popped
  next => cases popped
  next depth same =>
    cases popped
    dsimp only at below there
    rw [Array.getElem?_setIfInBounds, if_neg (Nat.ne_of_gt below)] at there
    exact mem_toList.2 ⟨i, same ▸ Nat.lt_succ_of_lt below, there⟩

theorem mem_mapFrames {f : α → α} (member : b ∈ (s.mapFrames f).toList) :
    ∃ a ∈ s.toList, f a = b := by
  obtain ⟨i, below, there⟩ := mem_toList.1 member
  rw [mapFrames, Array.getElem?_map, Option.map_eq_some_iff] at there
  obtain ⟨slot, held, same⟩ := there
  obtain ⟨a, rfl, changed⟩ := Option.map_eq_some_iff.1 same
  exact ⟨a, mem_toList.2 ⟨i, below, held⟩, changed⟩

theorem mem_peek {distance : Int} (there : s.peek distance = some a) : a ∈ s.toList := by
  unfold peek at there
  split at there
  next => cases there
  next inside =>
    exact mem_toList.2 ⟨_, by omega, Option.join_eq_some_iff.1 there⟩

theorem mem_modifyAt {distance : Int} {f : α → α} (there : s.peek distance = some a)
    (member : b ∈ (s.modifyAt distance f).toList) : b ∈ s.toList ∨ b = f a := by
  obtain ⟨i, below, found⟩ := mem_toList.1 member
  unfold modifyAt at below found
  unfold peek at there
  split at there
  next => cases there
  next inside =>
    rw [if_neg inside] at below found
    rw [Option.join_eq_some_iff] at there
    dsimp only at below found
    rw [Array.getElem?_modify] at found
    split at found
    next here =>
      rw [← here, there] at found
      exact .inr (Option.some.inj (Option.some.inj found)).symm
    next => exact .inl (mem_toList.2 ⟨i, below, found⟩)

end Members

end ScriptHost.CallStack
