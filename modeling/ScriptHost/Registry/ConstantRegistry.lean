import ScriptHost.Registry.ClassRegistry

set_option autoImplicit false

namespace ScriptHost.ConstantRegistry

variable {σ : Type}

def add (c : ContextId) (k : ConstantId) : Run σ Unit := do
  let e ← Run.constantOf k
  Run.modifyContext c fun x => { x with constants := x.constants.add e k }

def find (c : ContextId) (name : Bytes) : Run σ (Option ConstantId) := do
  let name := withoutSeparator name
  let x ← Run.context c
  if let some k := x.constants.find? name then return some k
  let some k := (← Run.scope x.scope).constants.find? name | return none
  add c k
  return some k

def fetch (c : ContextId) (name : Bytes) : Run σ (Option Value) := do
  let some k ← find c name | return none
  return some (← Run.constantOf k).value

def fetchOrName (h : Host σ) (c : ContextId) (name : Bytes) (trace : Trace) : Run σ Value := do
  match ← fetch c name with
  | some v => return v
  | none =>
    let bare := name.afterLast 0x5c
    Diagnostics.notice h c trace
      ("Use of undefined constant " ++ bare ++ " - assumed '" ++ bare ++ "'")
    return .text bare

def redeclared (name : Bytes) : Bytes := "Constant " ++ name ++ " already defined"

def define (h : Host σ) (c : ContextId) (name : Bytes) (value : Value) (isCaseSensitive : Bool) :
    Run σ Bool := do
  let name := withoutSeparator name
  let trace ← Calls.trace c
  if (← find c name).isSome then
    Diagnostics.notice h c trace (redeclared name)
    return false
  add c (← Run.newConstant { name, value, isCaseSensitive, trace })
  return true

def enterSet (s : ConstantSet) (e : Constant) (k : ConstantId) : ConstantId × ConstantSet :=
  match s.find? e.name with
  | some current => (current, s)
  | none => (k, s.add e k)

def declare (c : ContextId) (k : ConstantId) : Run σ Bool := do
  let e ← Run.constantOf k
  if let some current ← find c e.name then return current == k
  let s ← Run.scopeOf c
  let (current, constants) := enterSet (← Run.scope s).constants e k
  if current ≠ k then return false
  Run.modifyScope s fun x => { x with constants }
  add c k
  return true

def register (h : Host σ) (c : ContextId) (k : ConstantId) : Run σ Unit := do
  if !(← declare c k) then
    let e ← Run.constantOf k
    Diagnostics.error h c e.trace (redeclared e.name)

end ScriptHost.ConstantRegistry
