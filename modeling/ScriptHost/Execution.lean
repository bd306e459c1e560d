import ScriptHost.Lifecycle.Finalization
import ScriptHost.Modules.Include
import ScriptHost.Variables

set_option autoImplicit false

namespace ScriptHost

inductive EntityKind where
  | scriptClass
  | function
  | constant
deriving DecidableEq, Repr

structure AlreadyDeclared where
  kind : EntityKind
  name : Bytes
deriving DecidableEq, Repr

def AlreadyDeclared.message (e : AlreadyDeclared) : Bytes :=
  (match e.kind with
    | .scriptClass => Bytes.ofString "class "
    | .function => Bytes.ofString "function "
    | .constant => Bytes.ofString "constant ") ++ e.name ++ ": already registered"

namespace ScopeRegistry

variable {σ : Type}

def declareClass (s : ScopeId) (k : ClassId) : Run σ (Except AlreadyDeclared Unit) := do
  modify fun w => { w with classes := w.classes.modify k fun e => { e with isStatic := true } }
  let e ← Run.classOf k
  let (current, classes) := Scope.enter (← Run.scope s).classes e.lowerName k
  if current ≠ k then return .error ⟨.scriptClass, e.name⟩
  Run.modifyScope s fun x => { x with classes }
  return .ok ()

def declareFunction (s : ScopeId) (f : FunctionId) : Run σ (Except AlreadyDeclared Unit) := do
  modify fun w =>
    { w with functions := w.functions.modify f fun e => { e with isStatic := true } }
  let e ← Run.functionOf f
  let (current, functions) := Scope.enter (← Run.scope s).functions e.lowerName f
  if current ≠ f then return .error ⟨.function, e.name⟩
  Run.modifyScope s fun x => { x with functions }
  return .ok ()

def declareConstant (s : ScopeId) (k : ConstantId) : Run σ (Except AlreadyDeclared Unit) := do
  let e ← Run.constantOf k
  let (current, constants) := ConstantRegistry.enterSet (← Run.scope s).constants e k
  if current ≠ k then return .error ⟨.constant, e.name⟩
  Run.modifyScope s fun x => { x with constants }
  return .ok ()

def findClass (s : Scope) (name : Bytes) : Option ClassId :=
  s.classes.get? (withoutSeparator name).lower

def setDefault (s : ScopeId) (key : Bytes) (v : Value) : Run σ Unit := do
  let text ← Run.textOf v
  Run.modifyScope s fun x => { x with defaults := x.defaults.insert key text }

def make (s : Scope) : Run σ ScopeId :=
  modifyGet fun w => (w.scopes.next, { w with scopes := w.scopes.add s })

def makeAllocator : Run σ AllocatorId :=
  modifyGet fun w => (w.allocators.next, { w with allocators := w.allocators.add .empty })

def acquire (a : AllocatorId) : Run σ Nat :=
  modifyGet fun w =>
    let (id, allocator) := (w.allocators.get a).acquire
    (id, { w with allocators := w.allocators.modify a fun _ => allocator })

def release (a : AllocatorId) (id : Nat) : Run σ Unit :=
  modify fun w => { w with allocators := w.allocators.modify a (·.release id) }

end ScopeRegistry

structure ContextOptions where
  mask : Option Severity := none
  shell : Option Callback := none

namespace Execution

variable {σ : Type}

def fallbackFunction : Bytes := "__$phpenv_spl_autoload"

def fresh (number : Nat) (id : ScopeId) (s : Scope) (sink : SinkId) (globals : TableId) :
    Context where
  number
  scope := id
  isClosed := false
  calls := .empty
  nextSerial := 0
  output := .make sink
  overrides := .empty
  searchPath := .empty
  globals
  statics := .empty
  classes := .empty
  functions := s.functions
  constants := s.constants
  modules := .empty
  moduleIndex := .empty
  autoload := .empty
  diagnostics := .make s.mask
  shell := none
  shutdownFunctions := []
  attachments := .empty
  tracker := .empty

def install (x : Context) : Run σ ContextId :=
  modifyGet fun w => (w.contexts.next, { w with contexts := w.contexts.add x })

def loadExtensions (h : Host σ) (c : ContextId) : List Callback → Run σ Unit
  | [] => return
  | k :: rest => do
    h.loadExtension k c
    loadExtensions h c rest

def setUp (h : Host σ) (c : ContextId) (scope : Scope) (options : ContextOptions) : Run σ Unit := do
  if let some value := scope.defaults.get? "include_path" then
    Settings.followIncludePath c (some value)
  Run.modifyContext c fun x => { x with searchPath := x.searchPath.addAll scope.includePaths }
  if let some f ← FunctionRegistry.fetch c fallbackFunction then
    let key := (← Run.functionOf f).lowerName
    Run.modifyAutoload c fun a => { a with fallback := some ⟨key, .function f⟩ }
  Run.modifyContext c fun x => { x with
    diagnostics := { x.diagnostics with mask := options.mask.getD x.diagnostics.mask }
    shell := options.shell }
  loadExtensions h c scope.extensions

def create (h : Host σ) (s : ScopeId) (sink : SinkId) (options : ContextOptions) :
    Run σ ContextId := do
  let scope ← Run.scope s
  let number ← ScopeRegistry.acquire scope.ids
  let globals ← Run.newTable .empty
  Variables.modifyTable globals (·.insert "GLOBALS" (.table globals))
  let c ← install (fresh number s scope sink globals)
  setUp h c scope options
  return c

def enterClasses (h : Host σ) (c : ContextId) : List ClassId → Run σ Unit
  | [] => return
  | k :: rest => do
    ClassRegistry.enter h c k
    enterClasses h c rest

def createChild (h : Host σ) (parent : ContextId) (options : ContextOptions) :
    Run σ ContextId := do
  let p ← Run.context parent
  let c ← create h p.scope p.output.sink options
  let p ← Run.context parent
  Run.modifyContext c fun x => { x with
    overrides := x.overrides.overlay p.overrides
    searchPath := .ofList p.searchPath.directories
    functions := x.functions.overlay p.functions
    constants := x.constants.overlay p.constants
    modules := x.modules.overlay p.modules
    moduleIndex := x.moduleIndex.overlay p.moduleIndex }
  enterClasses h c (← ClassRegistry.all parent)
  return c

def onShutdown (c : ContextId) (k : Callback) : Run σ Unit :=
  Run.modifyContext c fun x => { x with shutdownFunctions := x.shutdownFunctions ++ [k] }

def finalizeGuarded (h : Host σ) (c : ContextId) : Run σ Unit := do
  if let some f ← Boundary.guard (Lifecycle.finalize h c) then
    let _ ← Boundary.catchUncaught h c f

def runShutdown (h : Host σ) (c : ContextId) : Nat → Nat → Run σ Unit
  | 0, _ => Run.exhausted
  | rounds + 1, i => do
    let some k := (← Run.context c).shutdownFunctions[i]? | return
    match ← Boundary.guard (h.shutDown k c) with
    | none => runShutdown h c rounds (i + 1)
    | some f =>
      if (f.chain.findSome? Failure.exit?).isSome then finalizeGuarded h c
      let _ ← Boundary.catchUncaught h c f

def final (h : Host σ) (c : ContextId) : Run σ Unit := do
  runShutdown h c h.patience 0
  finalizeGuarded h c
  Output.flushAll h c
  Run.modifyDiagnostics c fun d => { d with last := none }

def close (c : ContextId) : Run σ Unit := do
  let x ← Run.context c
  if x.isClosed then return
  Run.modifyContext c fun x => { x with isClosed := true }
  ScopeRegistry.release (← Run.scope x.scope).ids x.number

def shutdown (h : Host σ) (c : ContextId) : Run σ Unit :=
  Run.ensuring (final h c) (close c)

end Execution

end ScriptHost
