import ScriptHost.Registry.ClassRegistry

set_option autoImplicit false

/-!
Objects and their destructors. An object whose class has a destructor is tracked by the context that
created it, and destroyed once, at the latest in the final pass.
-/

namespace ScriptHost.Lifecycle

variable {σ : Type}

def track (c : ContextId) (object : Option ObjectId) : Run σ Nat := do
  let some o := object | return 0
  let w ← get
  let some k := (w.objects.get o).ofClass | return 0
  if (w.classes.findDestructor k).isNone then return 0
  let (handle, tracker) := (w.contexts.get c).tracker.add o
  Run.modifyTracker c fun _ => tracker
  return handle

def create (h : Host σ) (c : ContextId) (trace : Trace) (className : Bytes) (args : List Value) :
    Run σ (Option ObjectId) := do
  let some k ← ClassRegistry.require h c trace className | return none
  let object ← match (← Run.classOf k).create with
    | some callback => h.createObject callback c k args
    | none => some <$> Run.newObject { (default : Object) with ofClass := some k }
  let _ ← track c object
  return object

def runDestructor (h : Host σ) (c : ContextId) (o : ObjectId) : Run σ Unit := do
  Run.modifyObject o fun x => { x with isFinalized := true }
  let w ← get
  let some k := (w.objects.get o).ofClass | return
  let some (declaring, d) := w.classes.findDestructor k | return
  let some callback := d.invoke | return
  let trace := if d.trace.isUnknown then (w.contexts.get c).trace else d.trace
  let frame : Frame := {
    trace
    self := some o
    function := d.name
    declaring := (w.classes.get declaring).name
    static := (w.classes.get k).name }
  Calls.during c frame (h.destroyObject callback c o)

def destruct (h : Host σ) (c : ContextId) (object : Option ObjectId) : Run σ Unit := do
  let some o := object | return
  if (← Run.objectOf o).isFinalized then return
  match (← Run.context c).tracker.handle? o with
  | some handle =>
    Run.ensuring (runDestructor h c o) (Run.modifyTracker c (·.reclaim handle))
  | none => runDestructor h c o

def finalizePass (h : Host σ) (c : ContextId) : List Nat → Run σ Bool
  | [] => return false
  | handle :: rest => do
    let w ← get
    match (w.contexts.get c).tracker.object? handle with
    | none => finalizePass h c rest
    | some o =>
      if (w.objects.get o).isFinalized then finalizePass h c rest
      else
        Run.modifyTracker c (·.reclaim handle)
        runDestructor h c o
        let _ ← finalizePass h c rest
        return true

def finalizeRounds (h : Host σ) (c : ContextId) : Nat → Run σ Unit
  | 0 => Run.exhausted
  | rounds + 1 => do
    Run.modifyTracker c Tracker.drain
    if ← finalizePass h c (← Run.context c).tracker.order then finalizeRounds h c rounds

def finalize (h : Host σ) (c : ContextId) : Run σ Unit :=
  finalizeRounds h c h.patience

def pending (c : ContextId) : Run σ Nat := do
  Run.modifyTracker c Tracker.drain
  let w ← get
  return ((w.contexts.get c).tracker.objects.filter fun o => !(w.objects.get o).isFinalized).length

end ScriptHost.Lifecycle
