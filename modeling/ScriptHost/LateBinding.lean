import ScriptHost.Registry.ClassRegistry

set_option autoImplicit false

namespace ScriptHost.LateBinding

variable {σ : Type}

def staticName (x : Context) : Bytes :=
  match x.topFrame? with
  | none => []
  | some f =>
    if f.declaring.isEmpty then [] else if f.static.isEmpty then f.declaring else f.static

def currentObject (x : Context) : Option ObjectId :=
  x.topFrame?.bind (·.self)

def closure? (f : Frame) : Run σ (Option (Option ObjectId)) := do
  let some o := f.self | return none
  match (← Run.objectOf o).binding with
  | .plain => return none
  | .closure this => return some this

def classOfBound (this : Option ObjectId) : Run σ (Option ClassId) := do
  let some o := this | return none
  return (← Run.objectOf o).ofClass

def staticClass (h : Host σ) (c : ContextId) : Run σ (Option ClassId) := do
  let some a := (← Run.context c).calls.top | return none
  if a.frame.declaring.isEmpty then return none
  if a.staticClass.isSome then return a.staticClass
  if let some this ← closure? a.frame then return ← classOfBound this
  let name := if a.frame.static.isEmpty then a.frame.declaring else a.frame.static
  let k ← ClassRegistry.find h c name
  Run.modifyContext c (·.remember a.serial fun a => { a with staticClass := k })
  return k

def resolveDeclaring (h : Host σ) (c : ContextId) (a : Activation) : Run σ (Option ClassId) := do
  if a.declaringClass.isSome then return a.declaringClass
  let some k ← ClassRegistry.find h c a.frame.declaring
    | Run.fail (.misuse (.unknownClass a.frame.declaring))
  Run.modifyContext c (·.remember a.serial fun a => { a with declaringClass := some k })
  return some k

def currentClass (h : Host σ) (c : ContextId) : Run σ (Option ClassId) := do
  let some a := (← Run.context c).calls.top | return none
  if a.frame.declaring.isEmpty then return none
  resolveDeclaring h c a

def fallbackClass (h : Host σ) (c : ContextId) : Run σ (Option ClassId) := do
  let some a := (← Run.context c).calls.top | return none
  if a.frame.static.isEmpty then return none
  if a.staticClass.isSome then return a.staticClass
  let k ← ClassRegistry.find h c a.frame.static
  Run.modifyContext c (·.remember a.serial fun a => { a with staticClass := k })
  return k

def magicClass (h : Host σ) (c : ContextId) (name : Bytes) : Run σ (Option ClassId) := do
  if name.lower = Bytes.ofString "self" then
    match ← currentClass h c with
    | some k => return some k
    | none => fallbackClass h c
  else if name.lower = Bytes.ofString "static" then staticClass h c
  else return none

def nearestClass (h : Host σ) (c : ContextId) : Run σ (Option ClassId) := do
  let some a := (← Run.context c).calls.toList.reverse.find? (!·.frame.declaring.isEmpty)
    | return none
  match ← closure? a.frame with
  | some this => classOfBound this
  | none => resolveDeclaring h c a

def noParent : Bytes := "Cannot access parent:: when current class scope has no parent"

def parentClass (h : Host σ) (c : ContextId) (trace : Trace) : Run σ (Option ClassId) := do
  match ← nearestClass h c with
  | none =>
    Diagnostics.error h c trace "Cannot access parent:: when no class scope is active"
    return none
  | some k =>
    match (← Run.classOf k).parent with
    | none =>
      Diagnostics.error h c trace noParent
      return none
    | some parent => return some parent

def parentOf (h : Host σ) (c : ContextId) (trace : Trace) (className : Bytes) :
    Run σ (Option ClassId) := do
  let some k ← ClassRegistry.require h c trace className | return none
  match (← Run.classOf k).parent with
  | none =>
    Diagnostics.error h c trace noParent
    return none
  | some parent => return some parent

end ScriptHost.LateBinding
