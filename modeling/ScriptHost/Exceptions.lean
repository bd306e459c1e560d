import ScriptHost.Registry.ClassRegistry

set_option autoImplicit false

namespace ScriptHost.Exceptions

variable {σ : Type}

def throwException (c : ContextId) (e : Exception) : Run σ Unit := do
  Run.modifyDiagnostics c Diagnostics.clearSilent
  Run.fail (.exception e)

def throwNamed (h : Host σ) (c : ContextId) (trace : Trace) (className template : Bytes)
    (args : List Value) : Run σ Unit := do
  let some k ← ClassRegistry.require h c trace className | return
  throwException c {
    thrown := some (k, (← Run.classOf k).name)
    message := ← Run.expand template args
    trace
    frames := (← Run.context c).snapshot
    payload := none
    previous := none }

def isThrowable (classes : Classes) (k : ClassId) : Bool :=
  classes.hasAncestorNamed k "exception" || classes.hasAncestorNamed k "throwable"

def throwValue (h : Host σ) (c : ContextId) (trace : Trace) (v : Value) : Run σ Unit := do
  let .object o := v | Diagnostics.error h c trace "Can only throw objects"
  let w ← get
  let object := w.objects.get o
  match object.ofClass.filter (isThrowable w.classes) with
  | none =>
    Diagnostics.error h c trace
      "Exceptions must be valid objects derived from the Exception base class"
  | some k =>
    let message ← match object.binding with
      | .plain => Run.textOf ((object.properties.get? "message").getD .null)
      | .closure _ => pure []
    throwException c {
      thrown := some (k, (w.classes.get k).name)
      message
      trace
      frames := (w.contexts.get c).snapshot
      payload := some o
      previous := none }

def catchMatches (classes : Classes) (f : Failure) (className : Bytes) : Bool :=
  match f.chain.findSome? Failure.exception? with
  | some e =>
    match e.thrown with
    | some (k, _) => classes.hasAncestorNamed k className.lower
    | none => false
  | none => false

def die (h : Host σ) (c : ContextId) (v : Value) : Run σ Unit := do
  match v, v.exitStatus? with
  | _, some status => Run.fail (.exit status v)
  | .null, none => Run.fail (.exit 0 v)
  | _, none =>
    Output.echo h c v
    Run.fail (.exit 0 v)

end ScriptHost.Exceptions
