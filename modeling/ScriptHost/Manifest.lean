import ScriptHost.Cache.Connection
import ScriptHost.Severity.Mask
import ScriptHost.Toml.Document

set_option autoImplicit false

namespace ScriptHost

structure Manifest where
  name : Bytes
  version : Bytes
  includePaths : List Bytes
  errorReporting : Bytes
  settings : Table Value
  cacheFile : Bytes
  isCacheEnabled : Bool
  directory : Bytes
  mask : Severity

inductive ManifestError where
  | unreadable (path : Bytes) (e : FileError)
  | malformed (path : Bytes)
  | mask (path expression : Bytes) (e : MaskError)
deriving DecidableEq, Repr

def ManifestError.message : ManifestError → Bytes
  | .unreadable path e => "cannot read " ++ path ++ ": " ++ FileTree.readFailure path e
  | .malformed path => "parse error in " ++ path ++ ": malformed manifest"
  | .mask path expression e => path ++ ": error-reporting: " ++ e.message expression

namespace Manifest

def fileName : Bytes := "phpenv.toml"

def blank (directory : Bytes) : Manifest where
  name := []
  version := []
  includePaths := []
  errorReporting := []
  settings := .empty
  cacheFile := ".phpenv/modules.db"
  isCacheEnabled := true
  directory
  mask := .standard

def folded (c : Char) : Char :=
  if c = Char.ofNat 0x17f then 's' else if c = Char.ofNat 0x212a then 'k' else c.toLower

def isNamed (key : Bytes) (name : String) : Bool :=
  key.runes.map (folded ·.char) = name.toList

def text? : Toml.Tree → Option Bytes
  | .scalar (.text s) => some s
  | _ => none

def boolean? : Toml.Tree → Option Bool
  | .scalar (.boolean b) => some b
  | _ => none

def texts? : Toml.Tree → Option (List Bytes)
  | .array items => items.mapM text?
  | _ => none

def readSection (entry : Manifest → Bytes → Toml.Tree → Option Manifest) (m : Manifest) :
    Toml.Tree → Option Manifest
  | .table entries => entries.foldlM (fun m (key, t) => entry m key t) m
  | _ => none

def readProject (m : Manifest) (key : Bytes) (t : Toml.Tree) : Option Manifest :=
  if isNamed key "name" then do return { m with name := ← text? t }
  else if isNamed key "version" then do return { m with version := ← text? t }
  else some m

def readRuntime (m : Manifest) (key : Bytes) (t : Toml.Tree) : Option Manifest :=
  if isNamed key "include-paths" then do return { m with includePaths := ← texts? t }
  else if isNamed key "error-reporting" then do return { m with errorReporting := ← text? t }
  else some m

def readCache (m : Manifest) (key : Bytes) (t : Toml.Tree) : Option Manifest :=
  if isNamed key "path" then do return { m with cacheFile := ← text? t }
  else if isNamed key "enabled" then do return { m with isCacheEnabled := ← boolean? t }
  else some m

def readSettings (m : Manifest) : Toml.Tree → Manifest
  | .table entries =>
    { m with settings := m.settings.overlay (.ofList (Toml.entryValues entries)) }
  | _ => m

def readEntry (m : Manifest) (key : Bytes) (t : Toml.Tree) : Option Manifest :=
  if isNamed key "project" then readSection readProject m t
  else if isNamed key "runtime" then readSection readRuntime m t
  else if isNamed key "ini" then some (readSettings m t)
  else if isNamed key "cache" then readSection readCache m t
  else some m

def ofDocument (directory document : Bytes) : Option Manifest := do
  readSection readEntry (blank directory) (.table (← Toml.read document))

def withMask (path : Bytes) (m : Manifest) : Except ManifestError Manifest :=
  if m.errorReporting.isEmpty then .ok m
  else match Mask.parse m.errorReporting with
    | .ok mask => .ok { m with mask }
    | .error e => .error (.mask path m.errorReporting e)

def load (files : FileTree) (directory : Bytes) : Except ManifestError Manifest :=
  let path := Path.join [directory, fileName]
  match files.read path with
  | .error e => .error (.unreadable path e)
  | .ok document =>
    match ofDocument (files.absolute directory) document with
    | none => .error (.malformed path)
    | some m => withMask path m

def searched (files : FileTree) (directory : Bytes) : List Bytes :=
  (Path.stages (files.absolute directory)).reverse ++ [[Path.separator]]

def find (files : FileTree) (directory : Bytes) : Except ManifestError (Option Manifest) :=
  let holds (d : Bytes) : Bool := (files.stat (Path.join [d, fileName])).isOk
  match (searched files directory).find? holds with
  | some d => (load files d).map some
  | none => .ok none

def resolve (m : Manifest) (path : Bytes) : Bytes :=
  if Path.isAbsolute path then path else Path.join [m.directory, path]

def searchPath (m : Manifest) : List Bytes := m.includePaths.map m.resolve

def cachePath (m : Manifest) : Bytes := m.resolve m.cacheFile

def defaults (m : Manifest) : Table Bytes :=
  .ofList (m.settings.entries.map fun (key, v) => (key, v.toText))

def keys (m : Manifest) : List Bytes := m.settings.sorted.map (·.1)

def configure (m : Manifest) (s : Scope) : Scope :=
  { s with
    defaults := s.defaults.overlay m.defaults
    mask := m.mask
    includePaths := if m.includePaths.isEmpty then s.includePaths else m.searchPath }

def openCache {σ : Type} (m : Manifest) (now : Int64) :
    Run σ (Except OpenError (Option StoreId)) := do
  if !m.isCacheEnabled then return .ok none
  return (← Connection.connect m.cachePath now).map some

end Manifest

end ScriptHost
