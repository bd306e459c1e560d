import ScriptHost.Diagnostics.Routing
import ScriptHost.Calls

set_option autoImplicit false

namespace ScriptHost.Variables

variable {σ : Type}

def modifyTable (t : TableId) (f : Table Value → Table Value) : Run σ Unit :=
  modify fun w => { w with tables := w.tables.modify t f }

def globals (c : ContextId) : Run σ (Table Value) := do
  let w ← get
  return w.tables.get (w.contexts.get c).globals

def setGlobal (c : ContextId) (name : Bytes) (v : Value) : Run σ Unit := do
  modifyTable (← Run.context c).globals (·.insert name v)

def static (c : ContextId) (name : Bytes) (initial : Value) : Run σ Value := do
  match (← Run.context c).statics.get? name with
  | some v => return v
  | none =>
    Run.modifyContext c fun x => { x with statics := x.statics.insert name initial }
    return initial

def setStatic (c : ContextId) (name : Bytes) (v : Value) : Run σ Unit :=
  Run.modifyContext c fun x => { x with statics := x.statics.insert name v }

def attach (c : ContextId) (key : Bytes) (v : Value) : Run σ Unit :=
  Run.modifyContext c fun x => { x with attachments := x.attachments.insert key v }

def detach (c : ContextId) (key : Bytes) : Run σ Unit :=
  Run.modifyContext c fun x => { x with attachments := x.attachments.erase key }

def runShell (h : Host σ) (c : ContextId) (command : Bytes) : Run σ Value := do
  let some k := (← Run.context c).shell | return .null
  match ← h.runShell k c command with
  | .ok output => return .text output
  | .error f =>
    Diagnostics.warning h c (← Calls.trace c) ("shell_exec(): " ++ f.message)
    return .null

end ScriptHost.Variables
