set_option autoImplicit false

namespace ScriptHost

inductive Kind where
  | classes
  | functions
  | constants
  | modules
  | objects
  | tables
  | allocators
  | sinks
  | buffers
  | scopes
  | contexts
  | databases
  | stores
  | callbacks
deriving DecidableEq, Repr

structure Id (kind : Kind) where
  index : Nat
deriving DecidableEq, Repr, Inhabited

abbrev ClassId := Id .classes
abbrev FunctionId := Id .functions
abbrev ConstantId := Id .constants
abbrev ModuleId := Id .modules
abbrev ObjectId := Id .objects
abbrev TableId := Id .tables
abbrev AllocatorId := Id .allocators
abbrev SinkId := Id .sinks
abbrev BufferId := Id .buffers
abbrev ScopeId := Id .scopes
abbrev ContextId := Id .contexts
abbrev DatabaseId := Id .databases
abbrev StoreId := Id .stores

abbrev Callback := Id .callbacks

structure Pool (kind : Kind) (α : Type) where
  entries : Array α

namespace Pool

variable {kind : Kind} {α : Type}

def empty : Pool kind α := ⟨#[]⟩

instance : Inhabited (Pool kind α) := ⟨empty⟩

def size (p : Pool kind α) : Nat := p.entries.size

def get? (p : Pool kind α) (i : Id kind) : Option α := p.entries[i.index]?

def get [Inhabited α] (p : Pool kind α) (i : Id kind) : α := (p.get? i).getD default

def next (p : Pool kind α) : Id kind := ⟨p.entries.size⟩

def add (p : Pool kind α) (a : α) : Pool kind α := ⟨p.entries.push a⟩

def modify (p : Pool kind α) (i : Id kind) (f : α → α) : Pool kind α :=
  ⟨p.entries.modify i.index f⟩

theorem get?_add_next (p : Pool kind α) (a : α) : (p.add a).get? p.next = some a := by
  simp [add, get?, next]

theorem get?_add_of_lt (p : Pool kind α) (a : α) (i : Id kind) (h : i.index < p.size) :
    (p.add a).get? i = p.get? i := by
  simp only [add, get?, size] at *
  rw [Array.getElem?_push_lt h, Array.getElem?_eq_getElem h]

theorem get?_modify_self (p : Pool kind α) (i : Id kind) (f : α → α) :
    (p.modify i f).get? i = (p.get? i).map f := by
  simp [modify, get?, Array.getElem?_modify]

theorem get?_modify_of_ne (p : Pool kind α) {i j : Id kind} (f : α → α) (h : i ≠ j) :
    (p.modify i f).get? j = p.get? j := by
  have different : i.index ≠ j.index := fun same => h (by cases i; cases j; simp_all)
  simp [modify, get?, Array.getElem?_modify, different]

theorem size_modify (p : Pool kind α) (i : Id kind) (f : α → α) :
    (p.modify i f).size = p.size := by
  simp [modify, size]

end Pool

end ScriptHost
