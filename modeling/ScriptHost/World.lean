import ScriptHost.Cache.Store
import ScriptHost.Context
import ScriptHost.Files.Tree
import ScriptHost.IdAllocator
import ScriptHost.Scope
import ScriptHost.Template

set_option autoImplicit false

/-!
The state of everything, and computations on it. A computation can be unwound by a signal; what it
changed until then stays changed.
-/

namespace ScriptHost

inductive Observer where
  | searchPath
  | callback (k : Callback)
deriving DecidableEq, Repr

/-- All entities, with the embedder's own state of type `σ`. -/
structure World (σ : Type) where
  classes : Classes := .empty
  functions : Pool .functions Function := .empty
  constants : Pool .constants Constant := .empty
  modules : Pool .modules Module := .empty
  objects : Pool .objects Object := .empty
  tables : Pool .tables (Table Value) := .empty
  allocators : Pool .allocators IdAllocator := .empty
  sinks : Pool .sinks Sink := .empty
  scopes : Pool .scopes Scope := .empty
  contexts : Pool .contexts Context := .empty
  databases : Pool .databases Database := .empty
  stores : Pool .stores Store := .empty
  files : FileTree
  observers : Table Observer
  minted : Nat := 0
  embedder : σ

def standardObservers : Table Observer :=
  Table.empty.insert "include_path" .searchPath

inductive Signal where
  | failure (f : Failure)
  | value (v : Value)
  | exhausted
deriving Inhabited

abbrev Run (σ α : Type) := ExceptT Signal (StateM (World σ)) α

namespace Run

variable {σ α : Type}

def fail (f : Failure) : Run σ α := throw (.failure f)

def exhausted : Run σ α := throw .exhausted

def ensuring (body : Run σ α) (after : Run σ Unit) : Run σ α := fun w =>
  match body w with
  | (result, w) =>
    match after w with
    | (.ok (), w) => (result, w)
    | (.error signal, w) => (.error signal, w)

def context (c : ContextId) : Run σ Context := return (← get).contexts.get c

def modifyContext (c : ContextId) (f : Context → Context) : Run σ Unit :=
  modify fun w => { w with contexts := w.contexts.modify c f }

def scope (s : ScopeId) : Run σ Scope := return (← get).scopes.get s

def modifyScope (s : ScopeId) (f : Scope → Scope) : Run σ Unit :=
  modify fun w => { w with scopes := w.scopes.modify s f }

def scopeOf (c : ContextId) : Run σ ScopeId := return (← context c).scope

def classOf (k : ClassId) : Run σ Class := return (← get).classes.get k

def functionOf (f : FunctionId) : Run σ Function := return (← get).functions.get f

def constantOf (k : ConstantId) : Run σ Constant := return (← get).constants.get k

def moduleOf (m : ModuleId) : Run σ Module := return (← get).modules.get m

def objectOf (o : ObjectId) : Run σ Object := return (← get).objects.get o

def modifyObject (o : ObjectId) (f : Object → Object) : Run σ Unit :=
  modify fun w => { w with objects := w.objects.modify o f }

def addMethod (k : ClassId) (m : Method) : Run σ Unit :=
  modify fun w => { w with classes := w.classes.modify k (·.addMethod m) }

def modifySink (s : SinkId) (f : Sink → Sink) : Run σ Unit :=
  modify fun w => { w with sinks := w.sinks.modify s f }

def expand (template : Bytes) (args : List Value) : Run σ Bytes := do
  let w ← get
  return Template.message w.classes w.objects template args

def textOf (v : Value) : Run σ Bytes := do
  let w ← get
  match v with
  | .object id => return Template.detail w.classes w.objects (.object id)
  | v => return v.toText

def drain (s : SinkId) : Run σ (List SinkEvent) := do
  let journal := ((← get).sinks.get s).journal
  modifySink s ({ · with journal := [] })
  return journal

def modifyDiagnostics (c : ContextId) (f : Diagnostics → Diagnostics) : Run σ Unit :=
  modifyContext c fun x => { x with diagnostics := f x.diagnostics }

def modifyTracker (c : ContextId) (f : Tracker → Tracker) : Run σ Unit :=
  modifyContext c fun x => { x with tracker := f x.tracker }

def modifyAutoload (c : ContextId) (f : AutoloadChain → AutoloadChain) : Run σ Unit :=
  modifyContext c fun x => { x with autoload := f x.autoload }

def newObject (o : Object) : Run σ ObjectId :=
  modifyGet fun w => (w.objects.next, { w with objects := w.objects.add o })

def newClass (k : Class) : Run σ ClassId :=
  modifyGet fun w => (w.classes.next, { w with classes := w.classes.add k })

def newFunction (f : Function) : Run σ FunctionId :=
  modifyGet fun w => (w.functions.next, { w with functions := w.functions.add f })

def newModule (m : Module) : Run σ ModuleId :=
  modifyGet fun w => (w.modules.next, { w with modules := w.modules.add m })

def newConstant (k : Constant) : Run σ ConstantId :=
  modifyGet fun w => (w.constants.next, { w with constants := w.constants.add k })

def newTable (t : Table Value) : Run σ TableId :=
  modifyGet fun w => (w.tables.next, { w with tables := w.tables.add t })

end Run

end ScriptHost
