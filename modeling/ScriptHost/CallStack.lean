set_option autoImplicit false

/-!
The call stack: numbered slots of which the lowest `depth` are in use. It starts with room for 255
calls and doubles when it is full. `toList` is the view, outermost call first.
-/

namespace ScriptHost

structure CallStack (α : Type) where
  slots : Array (Option α)
  depth : Nat

namespace CallStack

variable {α : Type}

def initialCapacity : Nat := 255

def empty : CallStack α := ⟨Array.replicate initialCapacity none, 0⟩

instance : Inhabited (CallStack α) := ⟨empty⟩

def capacity (s : CallStack α) : Nat := s.slots.size

def push (s : CallStack α) (a : α) : CallStack α :=
  let slots :=
    if s.slots.size ≤ s.depth then s.slots ++ Array.replicate s.slots.size none else s.slots
  ⟨slots.setIfInBounds s.depth (some a), s.depth + 1⟩

def pop? (s : CallStack α) : Option (Option α × CallStack α) :=
  match s.depth with
  | 0 => none
  | depth + 1 => some (s.slots[depth]?.join, ⟨s.slots.setIfInBounds depth none, depth⟩)

def peek (s : CallStack α) (distance : Int) : Option α :=
  if distance < 0 ∨ s.depth ≤ distance then none
  else s.slots[s.depth - distance.toNat - 1]?.join

def top (s : CallStack α) : Option α := s.peek 0

def toList (s : CallStack α) : List α :=
  (s.slots.toList.take s.depth).filterMap id

def mapFrames (s : CallStack α) (f : α → α) : CallStack α :=
  { s with slots := s.slots.map (Option.map f) }

def modifyAt (s : CallStack α) (distance : Int) (f : α → α) : CallStack α :=
  if distance < 0 ∨ s.depth ≤ distance then s
  else { s with slots := s.slots.modify (s.depth - distance.toNat - 1) (Option.map f) }

end CallStack

end ScriptHost
