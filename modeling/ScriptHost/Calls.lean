import ScriptHost.Host

set_option autoImplicit false

namespace ScriptHost.Calls

variable {σ α : Type}

def push (c : ContextId) (f : Frame) : Run σ Unit :=
  Run.modifyContext c (·.pushFrame f)

def pushMethod (c : ContextId) (trace : Trace) (self : Option ObjectId) (method : Bytes)
    (args : Option (List Value)) : Run σ Unit := do
  let some object := self | Run.fail .fault
  let some k := (← Run.objectOf object).ofClass | Run.fail .fault
  push c { trace, self, args, function := method, declaring := (← Run.classOf k).name }

def pop (c : ContextId) : Run σ Unit := do
  match (← Run.context c).calls.pop? with
  | none => Run.fail (.misuse .popOfEmptyStack)
  | some (_, calls) => Run.modifyContext c fun x => { x with calls }

def during (c : ContextId) (f : Frame) (body : Run σ α) : Run σ α := do
  push c f
  Run.ensuring body (pop c)

def setArgument (c : ContextId) (distance index : Int) (v : Value) : Run σ Unit := do
  let some top := (← Run.context c).calls.peek distance | Run.fail .fault
  let args := top.frame.args.getD []
  if index < 0 ∨ args.length ≤ index then Run.fail .fault
  let frame := { top.frame with args := some (args.set index.toNat v) }
  Run.modifyContext c fun x =>
    { x with calls := x.calls.modifyAt distance ({ · with frame }) }

def trace (c : ContextId) : Run σ Trace := return (← Run.context c).trace

end ScriptHost.Calls
