set_option autoImplicit false

namespace ScriptHost

structure IdAllocator where
  free : List Nat
  next : Nat
deriving DecidableEq, Repr

namespace IdAllocator

def empty : IdAllocator := ⟨[], 0⟩

instance : Inhabited IdAllocator := ⟨empty⟩

def acquire (a : IdAllocator) : Nat × IdAllocator :=
  match a.free with
  | id :: free => (id, { a with free })
  | [] => (a.next, { a with next := a.next + 1 })

def release (a : IdAllocator) (id : Nat) : IdAllocator :=
  { a with free := id :: a.free }

def inUse (a : IdAllocator) : Int :=
  (a.next : Int) - a.free.length

end IdAllocator

end ScriptHost
