import ScriptHost.Cache.Connection
import ScriptHost.Registry.ConstantRegistry
import ScriptHost.Registry.FunctionRegistry

set_option autoImplicit false

/-!
Importing modules. A named source is compiled once for its scope, or read back from the module
cache; its declarations then enter the scope and the context.
-/

namespace ScriptHost

inductive ImportError where
  | noCompiler
  | compile (f : Failure)
  | undump (name : Bytes) (f : Failure)

namespace ImportError

def message : ImportError → Bytes
  | .noCompiler => "no compiler configured"
  | .compile f => f.message
  | .undump name f => "undump " ++ name ++ ": " ++ f.message

end ImportError

inductive DefineError where
  | unknownModule (index : Bytes)
  | unknownFunction (index : Bytes) (number : Int)
deriving DecidableEq, Repr

def DefineError.message : DefineError → Bytes
  | .unknownModule index => "define function: " ++ index ++ ": module not found"
  | .unknownFunction index number =>
    "define function: " ++ index ++ "[" ++ Bytes.ofInt number ++ "]: module not found"

namespace Modules

variable {σ : Type}

def modifyModule (m : ModuleId) (f : Module → Module) : Run σ Unit :=
  modify fun w => { w with modules := w.modules.modify m f }

def mint : Run σ Bytes := do
  let n ← modifyGet fun w => (w.minted, { w with minted := w.minted + 1 })
  return "00000000-0000-4000-8000-" ++ Bytes.hexNat 12 n

def keeping? (s : Scope) (source : Source) : Option (Compiler × ModuleCache) :=
  match s.compiler, s.cache with
  | some compiler, some cache =>
    if compiler.canDump && !source.name.isEmpty then some (compiler, cache) else none
  | _, _ => none

def fetchCached (h : Host σ) (cache : ModuleCache) (source : Source) : Run σ (Option Bytes) := do
  let digest := Sha256.digest source.code
  match cache with
  | .store s =>
    match ← Connection.fetch s source.name digest with
    | .ok payload => return payload
    | .error _ => return none
  | .external k =>
    match ← h.fetchCached k source.name digest with
    | .ok payload => return payload
    | .error _ => return none

def saveCached (h : Host σ) (cache : ModuleCache) (source : Source) (payload : Bytes) :
    Run σ Unit := do
  let digest := Sha256.digest source.code
  match cache with
  | .store s => let _ ← Connection.save s source.name digest payload
  | .external k => let _ ← h.saveCached k source.name digest payload

def loadPrecompiled (h : Host σ) (s : Scope) (c : ContextId) (source : Source) :
    Run σ (Except ImportError (Option ModuleId)) := do
  let some (compiler, cache) := keeping? s source | return .ok none
  let some payload ← fetchCached h cache source | return .ok none
  match ← h.undump compiler.callback c source payload with
  | .ok m => return .ok (some m)
  | .error f => return .error (.undump source.name f)

def storePrecompiled (h : Host σ) (s : Scope) (source : Source) (m : ModuleId) : Run σ Unit := do
  let some (compiler, cache) := keeping? s source | return
  match ← h.dump compiler.callback m with
  | .ok payload => saveCached h cache source payload
  | .error _ => return

def loadOrCompile (h : Host σ) (s : Scope) (c : ContextId) (source : Source) :
    Run σ (Except ImportError ModuleId) := do
  match ← loadPrecompiled h s c source with
  | .error e => return .error e
  | .ok (some m) => return .ok m
  | .ok none =>
    let some compiler := s.compiler | return .error .noCompiler
    match ← h.compile compiler.callback c source with
    | .error f => return .error (.compile f)
    | .ok m =>
      storePrecompiled h s source m
      return .ok m

def publishIn (w : World σ) (m : ModuleId) (s : Scope) : Scope :=
  let e := w.modules.get m
  let modules := if e.name.isEmpty then s.modules else s.modules.insert e.name m
  let classes := (e.classes.filter fun k => (w.classes.get k).isStatic).foldl
    (fun t k => (Scope.enter t (w.classes.get k).lowerName k).2) s.classes
  let functions := (e.functions.filter fun f => (w.functions.get f).isStatic).foldl
    (fun t f => (Scope.enter t (w.functions.get f).lowerName f).2) s.functions
  let constants := e.constants.foldl
    (fun t k => (ConstantRegistry.enterSet t (w.constants.get k) k).2) s.constants
  { s with
    modules
    moduleIndex := s.moduleIndex.insert e.internalName m
    classes
    functions
    constants }

def awaitScope (s : ScopeId) : Run σ Scope := do
  let scope ← Run.scope s
  if scope.isImporting then Run.exhausted
  return scope

def setImporting (s : ScopeId) (isImporting : Bool) : Run σ Unit :=
  Run.modifyScope s fun x => { x with isImporting }

def conclude (s : ScopeId) (source : Source) (m : ModuleId) : Run σ Unit := do
  let e ← Run.moduleOf m
  let name := if e.name.isEmpty then source.name else e.name
  let internalName ← if e.internalName.isEmpty then mint else pure e.internalName
  modifyModule m fun x => { x with name, internalName }
  let w ← get
  Run.modifyScope s (publishIn w m)

def loadInScope (h : Host σ) (scope : Scope) (s : ScopeId) (c : ContextId) (source : Source) :
    Run σ (Except ImportError ModuleId) := do
  match ← loadOrCompile h scope c source with
  | .error e => return .error e
  | .ok m =>
    conclude s source m
    return .ok m

def importInScope (h : Host σ) (s : ScopeId) (c : ContextId) (source : Source) :
    Run σ (Except ImportError ModuleId) := do
  let scope ← awaitScope s
  let known := if source.name.isEmpty then none else scope.modules.get? source.name
  if let some m := known then return .ok m
  setImporting s true
  Run.ensuring (loadInScope h scope s c source) (setImporting s false)

def findModule (s : ScopeId) (name : Bytes) : Run σ (Option ModuleId) :=
  return (← awaitScope s).modules.get? name

def declareClasses (h : Host σ) (c : ContextId) : List ClassId → Run σ Unit
  | [] => return
  | k :: rest => do
    if (← Run.classOf k).isStatic then
      if !(← ClassRegistry.declare h c k) then
        let e ← Run.classOf k
        Diagnostics.warning h c e.trace (ClassRegistry.redeclared e.name)
    declareClasses h c rest

def declareFunctions (h : Host σ) (c : ContextId) : List FunctionId → Run σ Unit
  | [] => return
  | f :: rest => do
    let e ← Run.functionOf f
    if e.isStatic then
      if !(← FunctionRegistry.declare c f) then
        Diagnostics.warning h c e.trace (FunctionRegistry.redeclared e.name)
    declareFunctions h c rest

def declareConstants (h : Host σ) (c : ContextId) : List ConstantId → Run σ Unit
  | [] => return
  | k :: rest => do
    if !(← ConstantRegistry.declare c k) then
      let e ← Run.constantOf k
      Diagnostics.warning h c e.trace (ConstantRegistry.redeclared e.name)
    declareConstants h c rest

def declareAll (h : Host σ) (c : ContextId) (m : ModuleId) : Run σ Unit := do
  let e ← Run.moduleOf m
  declareClasses h c e.classes
  declareFunctions h c e.functions
  declareConstants h c e.constants

def register (h : Host σ) (c : ContextId) (m : ModuleId) : Run σ Unit := do
  declareAll h c m
  let e ← Run.moduleOf m
  Run.modifyContext c fun x => { x with
    modules := if e.name.isEmpty then x.modules else x.modules.insert e.name m
    moduleIndex := x.moduleIndex.insert e.internalName m }

def importSource (h : Host σ) (c : ContextId) (source : Source) :
    Run σ (Except ImportError ModuleId) := do
  let x ← Run.context c
  let known := if source.name.isEmpty then none else x.modules.get? source.name
  if let some m := known then return .ok m
  match ← importInScope h x.scope c source with
  | .error e => return .error e
  | .ok m =>
    register h c m
    return .ok m

def byIndex (c : ContextId) (internalName : Bytes) : Run σ (Option ModuleId) := do
  let x ← Run.context c
  match x.moduleIndex.get? internalName with
  | some m => return some m
  | none => return (← awaitScope x.scope).moduleIndex.get? internalName

def defineFunction (h : Host σ) (c : ContextId) (trace : Trace) (index : Bytes) (number : Int) :
    Run σ (Except DefineError Unit) := do
  let some m ← byIndex c index | return .error (.unknownModule index)
  let functions := (← Run.moduleOf m).functions
  let some f := if number < 0 then none else functions[number.toNat]?
    | return .error (.unknownFunction index number)
  if !(← FunctionRegistry.declare c f) then
    Diagnostics.error h c trace (FunctionRegistry.redeclared (← Run.functionOf f).name)
  return .ok ()

def run (h : Host σ) (c : ContextId) (m : ModuleId) (table : Option TableId) : Run σ Value := do
  let some body := (← Run.moduleOf m).body | return .int .int 1
  match ← h.runModule body c table with
  | .null => return .int .int 1
  | v => return v

end Modules

end ScriptHost
