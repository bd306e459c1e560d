import ScriptHost.Registry.ClassRegistry

set_option autoImplicit false

namespace ScriptHost.FunctionRegistry

variable {σ : Type}

def fetch (c : ContextId) (name : Bytes) : Run σ (Option FunctionId) := do
  let lower := (withoutSeparator name).lower
  let x ← Run.context c
  if let some f := x.functions.get? lower then return some f
  let some f := (← Run.scope x.scope).functions.get? lower | return none
  Run.modifyContext c fun x => { x with functions := x.functions.insert lower f }
  return some f

def declare (c : ContextId) (f : FunctionId) : Run σ Bool := do
  let e ← Run.functionOf f
  if let some current ← fetch c e.name then return current == f
  if e.isStatic then
    let s ← Run.scopeOf c
    let (current, functions) := Scope.enter (← Run.scope s).functions e.lowerName f
    if current ≠ f then return false
    Run.modifyScope s fun x => { x with functions }
  Run.modifyContext c fun x => { x with functions := x.functions.insert e.lowerName f }
  return true

def redeclared (name : Bytes) : Bytes := "Cannot redeclare " ++ name ++ "()"

def register (h : Host σ) (c : ContextId) (f : FunctionId) : Run σ Unit := do
  if !(← declare c f) then
    let e ← Run.functionOf f
    Diagnostics.error h c e.trace (redeclared e.name)

def all (c : ContextId) : Run σ (List FunctionId) := do
  let shared := (← Run.scope (← Run.scopeOf c)).functions
  Run.modifyContext c fun x => { x with functions := shared.overlay x.functions }
  let w ← get
  return Bytes.sortBy (fun f => (w.functions.get f).name) (w.contexts.get c).functions.values

end ScriptHost.FunctionRegistry
