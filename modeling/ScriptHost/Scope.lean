import ScriptHost.Registry.ConstantSet

set_option autoImplicit false

namespace ScriptHost

structure Source where
  name : Bytes
  path : Bytes
  code : Bytes
deriving DecidableEq, Repr

structure Compiler where
  callback : Callback
  canDump : Bool
deriving DecidableEq, Repr

inductive ModuleCache where
  | store (s : StoreId)
  | external (k : Callback)
deriving DecidableEq, Repr

structure Scope where
  ids : AllocatorId
  compiler : Option Compiler := none
  cache : Option ModuleCache := none
  defaults : Table Bytes := .empty
  includePaths : List Bytes := []
  mask : Severity := .standard
  extensions : List Callback := []
  classes : Table ClassId := .empty
  functions : Table FunctionId := .empty
  constants : ConstantSet := .empty
  modules : Table ModuleId := .empty
  moduleIndex : Table ModuleId := .empty
  isImporting : Bool := false
deriving Inhabited

namespace Scope

def enter {α : Type} (t : Table α) (key : Bytes) (a : α) : α × Table α :=
  match t.get? key with
  | some current => (current, t)
  | none => (a, t.insert key a)

end Scope

end ScriptHost
