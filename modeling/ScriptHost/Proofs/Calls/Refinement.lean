import Mathlib.Data.List.Induction
import Mathlib.Order.Bounds.Basic
import ScriptHost.Proofs.Calls.Slots
import ScriptHost.Proofs.Embedder.Persistence
import ScriptHost.Proofs.Embedder.Services

set_option autoImplicit false

namespace ScriptHost

open Run

namespace CallStack

variable {α β : Type} {s : CallStack α} {items : List α} {a : α}

inductive Step (α : Type) where
  | push (a : α)
  | pop

def Step.map (f : α → β) : Step α → Step β
  | push a => push (f a)
  | pop => pop

def apply (s : CallStack α) : Step α → CallStack α
  | .push a => s.push a
  | .pop => (s.pop?.map (·.2)).getD s

def after (steps : List (Step α)) : CallStack α := steps.foldl apply empty

def active (steps : List (Step α)) : List α :=
  steps.foldl (fun items step => match step with
    | .push a => items ++ [a]
    | .pop => items.dropLast) []

def Suffices (steps : List (Step α)) (doublings : Nat) : Prop :=
  ∀ before, before <+: steps → (active before).length ≤ initialCapacity * 2 ^ doublings

structure Mirrors (s : CallStack α) (steps : List (Step α)) : Prop where
  depth : s.depth = (active steps).length
  peek : ∀ distance : Int, s.peek distance =
    if distance < 0 then none else (active steps).reverse[distance.toNat]?
  calls : s.toList = active steps
  pop : s.pop? = (active steps).getLast?.map fun a => (some a, s.apply .pop)
  free : ∀ i, s.depth ≤ i → i < s.capacity → s.slots[i]? = some none
  capacity : ∃ doublings, s.capacity = initialCapacity * 2 ^ doublings ∧
    IsLeast {n | Suffices steps n} doublings

section Steps

variable (steps : List (Step α))

theorem after_concat (step : Step α) : after (steps ++ [step]) = (after steps).apply step := by
  rw [after, List.foldl_append]
  rfl

theorem active_push (a : α) : active (steps ++ [.push a]) = active steps ++ [a] := by
  rw [active, List.foldl_append]
  rfl

theorem active_pop : active (steps ++ [.pop]) = (active steps).dropLast := by
  rw [active, List.foldl_append]
  rfl

theorem active_map (f : α → β) : active (steps.map (Step.map f)) = (active steps).map f := by
  induction steps using List.reverseRecOn with
  | nil => rfl
  | append_singleton steps step ih =>
    rw [List.map_append, List.map_singleton]
    cases step with
    | push a => rw [active_push, Step.map, active_push, ih, List.map_append, List.map_singleton]
    | pop => rw [active_pop, Step.map, active_pop, ih, List.map_dropLast]

theorem suffices_concat {steps : List (Step α)} {step : Step α} {doublings : Nat} :
    Suffices (steps ++ [step]) doublings ↔ Suffices steps doublings ∧
      (active (steps ++ [step])).length ≤ initialCapacity * 2 ^ doublings := by
  simp only [Suffices, List.prefix_concat_iff, or_imp, forall_and, forall_eq]
  exact and_comm

end Steps

theorem Holds.peek_eq (holds : s.Holds items) (distance : Int) :
    s.peek distance = if distance < 0 then none else items.reverse[distance.toNat]? := by
  unfold CallStack.peek
  rw [holds.depth]
  by_cases above : distance < 0
  · simp [above]
  by_cases beyond : (items.length : Int) ≤ distance
  · have outside : items.reverse.length ≤ distance.toNat := by
      rw [List.length_reverse]
      omega
    rw [if_pos (.inr beyond), if_neg above, List.getElem?_eq_none outside]
  · have below : items.length - distance.toNat - 1 < items.length := by omega
    rw [if_neg (not_or.2 ⟨above, beyond⟩), if_neg above, holds.getElem? below,
      List.getElem?_reverse (by omega), Nat.sub_right_comm]
    rfl

def IsClear (s : CallStack α) : Prop := ∀ i, s.depth ≤ i → i < s.capacity → s.slots[i]? = some none

theorem isClear_empty : (empty : CallStack α).IsClear := by
  intro i _ inside
  have inside : i < initialCapacity := by simpa [empty, capacity] using inside
  simp [empty, inside]

theorem capacity_push (s : CallStack α) (a : α) :
    (s.push a).capacity = if s.capacity ≤ s.depth then 2 * s.capacity else s.capacity := by
  unfold push capacity
  dsimp only
  split
  next => rw [Array.size_setIfInBounds, Array.size_append, Array.size_replicate, Nat.two_mul]
  next => rw [Array.size_setIfInBounds]

theorem IsClear.push (clear : s.IsClear) (a : α) : (s.push a).IsClear := by
  intro i above inside
  rw [capacity_push] at inside
  unfold CallStack.push at above ⊢
  dsimp only at above ⊢
  rw [Array.getElem?_setIfInBounds_ne (by omega)]
  unfold capacity at inside
  split
  next full =>
    -- the slots that have been added are free
    rw [if_pos full] at inside
    rw [Array.getElem?_append_right (by omega), Array.getElem?_replicate, if_pos (by omega)]
  next room =>
    rw [if_neg room] at inside
    exact clear i (by omega) inside

theorem IsClear.pop? {top : Option α} {rest : CallStack α} (clear : s.IsClear)
    (popped : s.pop? = some (top, rest)) : rest.IsClear ∧ rest.capacity = s.capacity := by
  unfold CallStack.pop? at popped
  split at popped
  next => cases popped
  next depth same =>
    cases popped
    refine ⟨fun i above inside => ?_, Array.size_setIfInBounds ..⟩
    rw [capacity, Array.size_setIfInBounds] at inside
    dsimp only at above ⊢
    rw [Array.getElem?_setIfInBounds]
    split
    next here => rw [if_pos (here ▸ inside)]
    next apart => exact clear i (by omega) inside

structure Arises (s : CallStack α) (steps : List (Step α)) : Prop where
  holds : s.Holds (active steps)
  clear : s.IsClear
  capacity : ∃ doublings, s.capacity = initialCapacity * 2 ^ doublings ∧
    IsLeast {n | Suffices steps n} doublings

namespace Arises

variable {steps : List (Step α)}

theorem empty : (empty : CallStack α).Arises [] where
  holds := holds_empty
  clear := isClear_empty
  capacity := by
    refine ⟨0, by simp [CallStack.capacity, CallStack.empty], fun before prefixed => ?_,
      fun _ _ => Nat.zero_le _⟩
    rw [List.prefix_nil.1 prefixed]
    exact Nat.zero_le _

theorem push (arises : s.Arises steps) (a : α) : (s.push a).Arises (steps ++ [.push a]) where
  holds := active_push steps a ▸ arises.holds.push a
  clear := arises.clear.push a
  capacity := by
    obtain ⟨n, capacity, enough, least⟩ := arises.capacity
    have depth := arises.holds.depth
    have fits : s.depth ≤ s.capacity := depth ▸ arises.holds.length_le
    have higher : (active (steps ++ [.push a])).length = s.depth + 1 := by
      rw [active_push, List.length_append, List.length_singleton, depth]
    rw [capacity_push]
    split
    next full =>
      have doubled : initialCapacity * 2 ^ (n + 1) = 2 * s.capacity := by
        rw [capacity, Nat.pow_succ, ← Nat.mul_assoc, Nat.mul_comm]
      have grows (before : List (Step α)) (prefixed : before <+: steps) :
          (active before).length ≤ initialCapacity * 2 ^ (n + 1) := by
        have := enough before prefixed
        omega
      have some : 0 < s.capacity := arises.holds.roomy
      refine ⟨n + 1, doubled.symm, suffices_concat.2 ⟨grows, by omega⟩, fun m suffices' => ?_⟩
      have needed := (suffices_concat.1 suffices').2
      -- with fewer doublings there would be no room for the call that has been pushed now
      by_contra fewer
      have lower : 2 ^ m ≤ 2 ^ n := Nat.pow_le_pow_right Nat.two_pos (by omega)
      have := Nat.mul_le_mul_left initialCapacity lower
      omega
    next room =>
      exact ⟨n, capacity, suffices_concat.2 ⟨enough, by omega⟩, fun m suffices' =>
        least (suffices_concat.1 suffices').1⟩

theorem pop (arises : s.Arises steps) : (s.apply .pop).Arises (steps ++ [.pop]) := by
  obtain ⟨n, capacity, enough, least⟩ := arises.capacity
  -- a pop makes no prefix deeper, so the same number of doublings is the least
  have kept : IsLeast {n | Suffices (steps ++ [.pop]) n} n := by
    refine ⟨suffices_concat.2 ⟨enough, ?_⟩, fun m suffices' => least (suffices_concat.1 suffices').1⟩
    have before := enough steps List.prefix_rfl
    rw [active_pop, List.length_dropLast]
    omega
  rcases List.eq_nil_or_concat (active steps) with none | ⟨below, a, some⟩
  · have nothing := active_pop steps
    rw [none] at nothing
    have holds := arises.holds
    rw [none] at holds
    rw [apply, holds.pop?_nil]
    exact ⟨nothing ▸ holds, arises.clear, n, capacity, kept⟩
  · rw [List.concat_eq_append] at some
    obtain ⟨rest, popped, left⟩ := (some ▸ arises.holds).pop?_concat
    obtain ⟨clear, same⟩ := arises.clear.pop? popped
    rw [apply, popped]
    refine ⟨?_, clear, n, same.trans capacity, kept⟩
    rw [active_pop, some, List.dropLast_concat]
    exact left

theorem mirrors (arises : s.Arises steps) : s.Mirrors steps where
  depth := arises.holds.depth
  peek := arises.holds.peek_eq
  calls := arises.holds.toList
  pop := by
    rcases List.eq_nil_or_concat (active steps) with none | ⟨below, a, some⟩
    · rw [none]
      exact (none ▸ arises.holds).pop?_nil
    · rw [List.concat_eq_append] at some
      obtain ⟨rest, popped, -⟩ := (some ▸ arises.holds).pop?_concat
      rw [some, List.getLast?_concat, apply, popped]
      rfl
  free := arises.clear
  capacity := arises.capacity

end Arises

theorem after_arises (steps : List (Step α)) : (after steps).Arises steps := by
  induction steps using List.reverseRecOn with
  | nil => exact .empty
  | append_singleton steps step ih =>
    rw [after_concat]
    cases step with
    | push a => exact ih.push a
    | pop => exact ih.pop

end CallStack

namespace Calls

open CallStack

variable {σ : Type} {c : ContextId} {w : World σ}

def perform (c : ContextId) : Step Frame → Run σ Unit
  | .push f => push c f
  | .pop => pop c

def follow (c : ContextId) (w : World σ) (steps : List (Step Frame)) : World σ :=
  steps.foldl (fun w step => (perform c step w).2) w

theorem follow_concat (w : World σ) (steps : List (Step Frame)) (step : Step Frame) :
    follow c w (steps ++ [step]) = (perform c step (follow c w steps)).2 := by
  rw [follow, List.foldl_append]
  rfl

theorem pop_eq (c : ContextId) (w : World σ) :
    pop c w = match (w.context c).calls.pop? with
      | none => (.error (.failure (.misuse .popOfEmptyStack)), w)
      | some _ => (.ok (), w.popFrame c) := by
  rw [pop, bind_ok (context_apply w c), World.popFrame]
  cases (w.context c).calls.pop? <;> rfl

theorem perform_calls (there : w.contexts.has c) (step : Step Frame) :
    (perform c step w).2.contexts.has c ∧ ∃ taken : Step Activation,
      taken.map (·.frame) = step ∧
        ((perform c step w).2.context c).calls = (w.context c).calls.apply taken := by
  have now (f : Context → Context) : (w.updateContext c f).contexts.has c ∧
      (w.updateContext c f).context c = f (w.context c) :=
    ⟨(w.contexts.has_modify c c f).trans there,
      (w.context_updateContext c c f).trans (if_pos ⟨rfl, there⟩)⟩
  cases step with
  | push f =>
    obtain ⟨kept, pushed⟩ := now (·.pushFrame f)
    exact ⟨kept, .push { serial := (w.context c).nextSerial, frame := f }, rfl,
      congrArg Context.calls pushed⟩
  | pop =>
    show (pop c w).2.contexts.has c ∧ _
    rw [perform, pop_apply, World.popFrame]
    cases popped : (w.context c).calls.pop? with
    | none => exact ⟨there, .pop, rfl, by rw [CallStack.apply, popped]; rfl⟩
    | some top =>
      obtain ⟨kept, left⟩ := now fun x => { x with calls := top.2 }
      refine ⟨kept, .pop, rfl, ?_⟩
      rw [CallStack.apply, popped]
      exact congrArg Context.calls left

theorem follow_calls (there : w.contexts.has c) (new : (w.context c).calls = .empty)
    (steps : List (Step Frame)) : (follow c w steps).contexts.has c ∧
      ∃ taken : List (Step Activation), taken.map (Step.map (·.frame)) = steps ∧
        ((follow c w steps).context c).calls = after taken := by
  induction steps using List.reverseRecOn with
  | nil => exact ⟨there, [], rfl, new⟩
  | append_singleton steps step ih =>
    obtain ⟨there, taken, rfl, calls⟩ := ih
    rw [follow_concat]
    obtain ⟨kept, last, rfl, stepped⟩ := perform_calls there step
    exact ⟨kept, taken ++ [last], by rw [List.map_append, List.map_singleton],
      by rw [stepped, calls, after_concat]⟩

end Calls

/-- A call stack is the list of the active calls, however it has been pushed and popped. It never has
more slots than the deepest list so far has needed, and those above the innermost call are free. So it
is in a context, where a pop of nothing is misuse and changes nothing. -/
theorem CallStack.refines_list :
    (∀ {α : Type} (steps : List (Step α)), (after steps).Mirrors steps) ∧
    ∀ {σ : Type} (w : World σ) (c : ContextId), w.contexts.has c → (w.context c).calls = .empty →
      ∀ steps : List (Step Frame),
        (∃ taken : List (Step Activation), taken.map (Step.map (·.frame)) = steps ∧
          ((Calls.follow c w steps).context c).calls = after taken) ∧
        ((Calls.follow c w steps).context c).depth = (active steps).length ∧
        (∀ distance : Int,
          (((Calls.follow c w steps).context c).calls.peek distance).map (·.frame) =
            if distance < 0 then none else (active steps).reverse[distance.toNat]?) ∧
        ((Calls.follow c w steps).context c).snapshot = (active steps).map (·.copy) ∧
        (active steps = [] → Calls.pop c (Calls.follow c w steps) =
          (.error (.failure (.misuse .popOfEmptyStack)), Calls.follow c w steps)) ∧
        (active steps ≠ [] → Calls.pop c (Calls.follow c w steps) =
          (.ok (), Calls.follow c w (steps ++ [.pop]))) := by
  refine ⟨fun steps => (after_arises steps).mirrors, fun w c there new steps => ?_⟩
  obtain ⟨-, taken, rfl, calls⟩ := Calls.follow_calls there new steps
  have mirrors := (after_arises taken).mirrors
  have popped := mirrors.pop
  rw [active_map]
  refine ⟨⟨taken, rfl, calls⟩, ?_, fun distance => ?_, ?_, fun none => ?_, fun inside => ?_⟩
  · rw [Context.depth, calls, mirrors.depth, List.length_map]
  · rw [calls, mirrors.peek, ← List.map_reverse, List.getElem?_map]
    split <;> rfl
  · rw [Context.snapshot, calls, mirrors.calls, List.map_map]
    rfl
  · rw [List.map_eq_nil_iff.1 none] at popped
    rw [Calls.pop_eq, calls, popped]
    rfl
  · have nonempty : active taken ≠ [] := fun none => inside (List.map_eq_nil_iff.2 none)
    have last := List.getLast?_eq_some_getLast nonempty
    rw [last] at popped
    rw [Calls.follow_concat, Calls.perform, Calls.pop_apply, Calls.pop_eq, calls, popped]
    rfl

def uncalled : World Unit where
  contexts := Pool.empty.add default
  files := FileTree.make "/"
  observers := standardObservers
  embedder := ()

def overdrawn : List (CallStack.Step Frame) :=
  [.push { function := "main" }, .pop, .pop, .push { function := "other" }]

theorem refines_list_overdrawn :
    uncalled.contexts.has ⟨0⟩ ∧ (uncalled.context ⟨0⟩).calls = .empty ∧
    Calls.pop ⟨0⟩ (Calls.follow ⟨0⟩ uncalled (overdrawn.take 2)) =
      (.error (.failure (.misuse .popOfEmptyStack)),
        Calls.follow ⟨0⟩ uncalled (overdrawn.take 2)) ∧
    Calls.pop ⟨0⟩ (Calls.follow ⟨0⟩ uncalled overdrawn) =
      (.ok (), Calls.follow ⟨0⟩ uncalled (overdrawn ++ [.pop])) ∧
    ((Calls.follow ⟨0⟩ uncalled overdrawn).context ⟨0⟩).snapshot.map (·.function) =
      [("other" : Bytes)] := by
  have shown := CallStack.refines_list.2 uncalled ⟨0⟩ rfl rfl
  obtain ⟨-, -, -, -, misused, -⟩ := shown (overdrawn.take 2)
  obtain ⟨-, -, -, snapshot, -, returns⟩ := shown overdrawn
  exact ⟨rfl, rfl, misused rfl, returns nofun, by rw [snapshot]; rfl⟩

end ScriptHost
