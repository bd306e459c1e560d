import ScriptHost.Host

set_option autoImplicit false

namespace ScriptHost.Settings

variable {σ : Type}

def setSearchPath (c : ContextId) (directories : List Bytes) : Run σ Unit :=
  Run.modifyContext c fun x => { x with searchPath := .ofList directories }

def addSearchPath (c : ContextId) (directory : Bytes) : Run σ Unit :=
  Run.modifyContext c fun x => { x with searchPath := x.searchPath.add directory }

def followIncludePath (c : ContextId) (value : Option Bytes) : Run σ Unit :=
  setSearchPath c (Path.splitList (value.getD []))

def lookup (c : ContextId) (key : Bytes) : Run σ (Option Bytes) := do
  let x ← Run.context c
  match x.overrides.get? key with
  | some value => return some value
  | none => return (← Run.scope x.scope).defaults.get? key

def notify (h : Host σ) (c : ContextId) (key : Bytes) (value : Option Bytes) : Run σ Unit := do
  match (← get).observers.get? key with
  | none => return
  | some .searchPath => followIncludePath c value
  | some (.callback k) => h.settingChanged k c value

def observe (key : Bytes) : Option Callback → Run σ Unit
  | none => modify fun w => { w with observers := w.observers.erase key }
  | some k => modify fun w => { w with observers := w.observers.insert key (.callback k) }

def set (h : Host σ) (c : ContextId) (key : Bytes) (v : Value) : Run σ (Option Bytes) := do
  let previous ← lookup c key
  let text ← Run.textOf v
  notify h c key (some text)
  Run.modifyContext c fun x => { x with overrides := x.overrides.insert key text }
  return previous

def restore (h : Host σ) (c : ContextId) (key : Bytes) : Run σ Unit := do
  Run.modifyContext c fun x => { x with overrides := x.overrides.erase key }
  notify h c key (← lookup c key)

def inSection (name key : Bytes) : Bool :=
  name.isEmpty || key.startsWith (name ++ Bytes.ofString ".")

def values (c : ContextId) (name : Bytes) (withDefaults : Bool) : Run σ (Table Bytes) := do
  let x ← Run.context c
  let defaults := (← Run.scope x.scope).defaults
  let shown := if withDefaults then defaults.overlay x.overrides else x.overrides
  return ⟨shown.entries.filter (inSection name ·.1),
    shown.distinct.sublist (List.filter_sublist.map Prod.fst)⟩

def searchPathText (x : Context) : Bytes :=
  if x.searchPath.directories.isEmpty then "."
  else Bytes.join [Path.listSeparator] x.searchPath.directories

end ScriptHost.Settings
