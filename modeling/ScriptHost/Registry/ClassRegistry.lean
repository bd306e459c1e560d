import ScriptHost.Boundary

set_option autoImplicit false

namespace ScriptHost

def withoutSeparator : Bytes → Bytes
  | 0x5c :: rest => rest
  | name => name

namespace ClassRegistry

variable {σ : Type}

def enter (h : Host σ) (c : ContextId) (k : ClassId) : Run σ Unit := do
  let e ← Run.classOf k
  Run.modifyContext c fun x => { x with classes := x.classes.insert e.lowerName k }
  let some hook := e.onEnter | return
  if let some f ← h.enterClass hook c then
    Run.modifyContext c fun x => { x with classes := x.classes.erase e.lowerName }
    Diagnostics.raiseText h c .coreError e.trace
      ("Cannot initialize class " ++ e.name ++ ": " ++ f.message)

def findLower (h : Host σ) (c : ContextId) (lower : Bytes) : Run σ (Option ClassId) := do
  let x ← Run.context c
  if let some k := x.classes.get? lower then return some k
  let some k := (← Run.scope x.scope).classes.get? lower | return none
  if !(← Run.classOf k).isStatic then return none
  enter h c k
  return some k

def find (h : Host σ) (c : ContextId) (name : Bytes) : Run σ (Option ClassId) :=
  findLower h c (withoutSeparator name).lower

def load (h : Host σ) (c : ContextId) (a : Autoloader) (name : Bytes) : Run σ Unit := do
  match a.loader with
  | .callback k => h.autoload k c name
  | .function f =>
    match (← Run.functionOf f).invoke with
    | some k => h.callFunction k c [.text name]
    | none => Run.fail .fault
  | .missing => Run.fail .fault

def tryLoaders (h : Host σ) (c : ContextId) (name : Bytes) :
    List Autoloader → Run σ (Option ClassId)
  | [] => do
    let some a := (← Run.context c).autoload.fallback | return none
    load h c a name
    find h c name
  | a :: rest => do
    load h c a name
    match ← find h c name with
    | some k => return some k
    | none => tryLoaders h c name rest

def isLoadable (name : Bytes) : Bool :=
  let isDigit (b : UInt8) : Bool := 0x30 ≤ b && b ≤ 0x39
  let isLetter (b : UInt8) : Bool := (0x41 ≤ b && b ≤ 0x5a) || (0x61 ≤ b && b ≤ 0x7a)
  let allowed (b : UInt8) : Bool := isLetter b || isDigit b || b = 0x5f || b = 0x5c || 0x80 ≤ b
  name.all allowed && !(name.head?.all isDigit)

def autoload (h : Host σ) (c : ContextId) (name : Bytes) : Run σ (Option ClassId) := do
  let lower := name.lower
  let chain := (← Run.context c).autoload
  if !isLoadable name || chain.busy.contains lower then return none
  Run.modifyAutoload c (·.enter lower)
  Run.ensuring (tryLoaders h c name chain.loaders) (Run.modifyAutoload c (·.leave lower))

def addLoader (c : ContextId) (a : Autoloader) (atFront : Bool) : Run σ Bool := do
  let isKnown := (← Run.context c).autoload.hasKey a.key
  Run.modifyAutoload c (·.register a atFront)
  return !isKnown

def removeLoader (c : ContextId) (key : Bytes) : Run σ Bool := do
  let isKnown := (← Run.context c).autoload.hasKey key
  Run.modifyAutoload c (·.unregister key)
  return isKnown

def fetch (h : Host σ) (c : ContextId) (name : Bytes) : Run σ (Option ClassId) := do
  match ← find h c name with
  | some k => return some k
  | none => autoload h c (withoutSeparator name)

def notFound (name : Bytes) : Bytes := "Class '" ++ name ++ "' not found"

def require (h : Host σ) (c : ContextId) (trace : Trace) (name : Bytes) :
    Run σ (Option ClassId) := do
  match ← fetch h c name with
  | some k => return some k
  | none =>
    Diagnostics.error h c trace (notFound name)
    return none

def declare (h : Host σ) (c : ContextId) (k : ClassId) : Run σ Bool := do
  let e ← Run.classOf k
  if let some current ← find h c e.name then return current == k
  let e ← Run.classOf k
  if e.isStatic then
    let s ← Run.scopeOf c
    let (current, classes) := Scope.enter (← Run.scope s).classes e.lowerName k
    if current ≠ k then return false
    Run.modifyScope s fun x => { x with classes }
  enter h c k
  return true

def redeclared (name : Bytes) : Bytes := "Cannot redeclare class " ++ name

def register (h : Host σ) (c : ContextId) (k : ClassId) : Run σ Unit := do
  if !(← declare h c k) then
    let e ← Run.classOf k
    Diagnostics.error h c e.trace (redeclared e.name)

def isLoaded (c : ContextId) (name : Bytes) : Run σ Bool :=
  return (← Run.context c).classes.contains (withoutSeparator name).lower

def all (c : ContextId) : Run σ (List ClassId) := do
  let w ← get
  return Bytes.sortBy (fun k => (w.classes.get k).name) (w.contexts.get c).classes.values

end ClassRegistry

end ScriptHost
