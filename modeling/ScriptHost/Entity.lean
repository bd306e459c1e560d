import ScriptHost.Table
import ScriptHost.Text.Case
import ScriptHost.Value

set_option autoImplicit false

namespace ScriptHost

structure Method where
  name : Bytes
  trace : Trace
  invoke : Option Callback

structure Class where
  name : Bytes
  parent : Option ClassId
  isStatic : Bool
  trace : Trace
  destructor : Option Method
  methods : Table Method
  onEnter : Option Callback
  create : Option Callback
deriving Inhabited

structure Function where
  name : Bytes
  isStatic : Bool
  trace : Trace
  invoke : Option Callback
deriving Inhabited

structure Constant where
  name : Bytes
  value : Value
  isCaseSensitive : Bool
  trace : Trace
deriving Inhabited

structure Module where
  name : Bytes
  internalName : Bytes
  classes : List ClassId
  functions : List FunctionId
  constants : List ConstantId
  body : Option Callback
deriving Inhabited

inductive Binding where
  | plain
  | closure (this : Option ObjectId)
deriving DecidableEq, Repr

structure Object where
  ofClass : Option ClassId
  properties : Table Value
  binding : Binding
  isFinalized : Bool

instance : Inhabited Object := ⟨⟨none, .empty, .plain, false⟩⟩

namespace Class

def make (name : Bytes) (parent : Option ClassId) : Class where
  name
  parent
  isStatic := true
  trace := {}
  destructor := none
  methods := .empty
  onEnter := none
  create := none

def lowerName (c : Class) : Bytes := c.name.lower

def destructorName : Bytes := "__destruct"

def addMethod (c : Class) (m : Method) : Class :=
  let lower := m.name.lower
  { c with
    methods := c.methods.insert lower m
    destructor := if lower = destructorName then some m else c.destructor }

end Class

def Function.lowerName (f : Function) : Bytes := f.name.lower

def Constant.lowerName (k : Constant) : Bytes := k.name.lower

abbrev Classes := Pool .classes Class

namespace Classes

def ancestry (classes : Classes) : Nat → ClassId → List ClassId
  | 0, _ => []
  | bound + 1, c =>
    c :: match (classes.get c).parent with
      | none => []
      | some parent => ancestry classes bound parent

def lineage (classes : Classes) (c : ClassId) : List ClassId :=
  ancestry classes classes.size c

def findMethod (classes : Classes) (c : ClassId) (name : Bytes) : Option (ClassId × Method) :=
  let lower := name.lower
  (lineage classes c).findSome? fun d => ((classes.get d).methods.get? lower).map (d, ·)

def findDestructor (classes : Classes) (c : ClassId) : Option (ClassId × Method) :=
  (lineage classes c).findSome? fun d => (classes.get d).destructor.map (d, ·)

def isSubclassOf (classes : Classes) (c other : ClassId) : Bool :=
  (lineage classes c).contains other

def hasAncestorNamed (classes : Classes) (c : ClassId) (lower : Bytes) : Bool :=
  (lineage classes c).any fun d => (classes.get d).lowerName == lower

end Classes

end ScriptHost
