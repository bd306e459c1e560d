import ScriptHost.Modules.Import
import ScriptHost.Settings.Overlay

set_option autoImplicit false

namespace ScriptHost

inductive IncludeKind where
  | include
  | includeOnce
  | require
  | requireOnce
deriving DecidableEq, Repr

namespace IncludeKind

def name : IncludeKind → Bytes
  | .include => "include"
  | .includeOnce => "include_once"
  | .require => "require"
  | .requireOnce => "require_once"

def all : List IncludeKind := [.include, .includeOnce, .require, .requireOnce]

def ofName? (s : Bytes) : Option IncludeKind := all.find? (·.name == s)

theorem ofName?_name (k : IncludeKind) : ofName? k.name = some k := by
  cases k <;> rfl

def isOnce (k : IncludeKind) : Bool := k = .includeOnce ∨ k = .requireOnce

def isRequired (k : IncludeKind) : Bool := k = .require ∨ k = .requireOnce

end IncludeKind

namespace Include

variable {σ : Type}

def findFile (files : FileTree) (directories : List Bytes) (path : Bytes) : Option Bytes :=
  if path.isEmpty then none
  else match files.regularFile? path with
    | some found => some found
    | none =>
      if Path.isAbsolute path then none
      else directories.findSome? fun d => files.regularFile? (Path.join [d, path])

def find (c : ContextId) (path : Bytes) : Run σ (Option Bytes) := do
  let w ← get
  return findFile w.files (w.contexts.get c).searchPath.directories path

def failed (h : Host σ) (c : ContextId) (kind : IncludeKind) (path : Bytes) (trace : Trace) :
    Run σ Value := do
  let searched := Settings.searchPathText (← Run.context c)
  if kind.isRequired then
    Diagnostics.error h c trace (kind.name ++ "(): Failed opening required '" ++ path
      ++ "' (include_path='" ++ searched ++ "')")
  else
    Diagnostics.warning h c trace (kind.name ++ "(): Failed opening '" ++ path
      ++ "' for inclusion (include_path='" ++ searched ++ "')")
  return .bool false

def moduleOfFile (h : Host σ) (c : ContextId) (kind : IncludeKind) (file : Bytes) (trace : Trace) :
    Run σ (Option ModuleId) := do
  let x ← Run.context c
  if let some m := x.modules.get? file then return some m
  if let some m ← Modules.findModule x.scope file then
    Modules.register h c m
    return some m
  let .ok code := (← get).files.read file | return none
  match ← Modules.importSource h c ⟨file, file, code⟩ with
  | .ok m => return some m
  | .error e =>
    let severity := match e with
      | .noCompiler => Severity.coreError
      | _ => Severity.parse
    Diagnostics.raiseText h c severity trace (kind.name ++ "(): " ++ e.message)
    return none

def run (h : Host σ) (c : ContextId) (kind : IncludeKind) (path : Bytes)
    (table : Option TableId) (trace : Trace) : Run σ Value := do
  let some file ← find c path | failed h c kind path trace
  if kind.isOnce && (← Run.context c).modules.contains file then return .bool true
  let some m ← moduleOfFile h c kind file trace | failed h c kind path trace
  let table := table.getD (← Run.context c).globals
  let frame : Frame := { trace, args := some [.text path], function := kind.name }
  Calls.during c frame (Modules.run h c m (some table))

end Include

end ScriptHost
