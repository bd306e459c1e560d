import ScriptHost.Files.Path
import ScriptHost.Identity
import ScriptHost.Table

set_option autoImplicit false

namespace ScriptHost

inductive Node where
  | directory
  | file (content : Bytes)
  | database (id : DatabaseId)
  | overwritten (id : DatabaseId) (content : Bytes)
deriving DecidableEq, Repr

inductive FileError where
  | missing
  | notDirectory
  | isDirectory
  | nameTooLong
  | invalid
deriving DecidableEq, Repr

def FileError.message : FileError → Bytes
  | .missing => "no such file or directory"
  | .notDirectory => "not a directory"
  | .isDirectory => "is a directory"
  | .nameTooLong => "file name too long"
  | .invalid => "invalid argument"

structure FileTree where
  nodes : Table Node
  workingDirectory : Bytes
deriving Inhabited

namespace FileTree

def absolute (t : FileTree) (path : Bytes) : Bytes :=
  Path.absolute t.workingDirectory path

def node? (t : FileTree) (path : Bytes) : Option Node :=
  if path = [Path.separator] then some .directory else t.nodes.get? path

def longestName : Nat := 255

def longestPath : Nat := 4096

def walk (t : FileTree) : Bytes → List Bytes → Except FileError Node
  | position, [] =>
    match t.node? position with
    | some node => .ok node
    | none => .error .missing
  | position, c :: rest =>
    match t.node? position with
    | some .directory =>
      if longestName < c.length then .error .nameTooLong
      else walk t (Path.join [position, c]) rest
    | some _ => .error .notDirectory
    | none => .error .missing

def flaw? (path : Bytes) : Option FileError :=
  if path.contains 0 then some .invalid
  else if path.isEmpty then some .missing
  else if longestPath ≤ path.length then some .nameTooLong
  else none

def stat (t : FileTree) (path : Bytes) : Except FileError Node :=
  match flaw? path with
  | some e => .error e
  | none =>
    walk t (if Path.isAbsolute path then [Path.separator] else t.workingDirectory)
      (Bytes.split Path.separator path)

def regularFile? (t : FileTree) (path : Bytes) : Option Bytes :=
  match t.stat path with
  | .ok .directory => none
  | .ok _ => some (t.absolute path)
  | .error _ => none

def read (t : FileTree) (path : Bytes) : Except FileError Bytes :=
  match t.stat path with
  | .ok (.file content) => .ok content
  | .ok (.database _) => .ok []
  | .ok (.overwritten _ content) => .ok content
  | .ok .directory => .error .isDirectory
  | .error e => .error e

def readFailure (path : Bytes) (e : FileError) : Bytes :=
  (if e = .isDirectory then "read " else "open " : String) ++ path ++ ": " ++ e.message

def put (t : FileTree) (path : Bytes) (node : Node) : FileTree :=
  { t with nodes := t.nodes.insert (t.absolute path) node }

def remove (t : FileTree) (path : Bytes) : FileTree :=
  let place := t.absolute path
  { t with nodes := t.nodes.discard fun p => p = place || p.startsWith (place ++ [Path.separator]) }

def makeStages (t : FileTree) : List Bytes → FileTree × Option (Bytes × FileError)
  | [] => (t, none)
  | path :: rest =>
    match t.node? (t.absolute path) with
    | some .directory => makeStages t rest
    | some _ => (t, some (path, .notDirectory))
    | none =>
      match flaw? path with
      | some e => (t, some (path, e))
      | none =>
        if longestName < (Bytes.afterLast Path.separator path).length then
          (t, some (path, .nameTooLong))
        else makeStages (t.put path .directory) rest

def makeDirectories (t : FileTree) (path : Bytes) : FileTree × Option (Bytes × FileError) :=
  t.makeStages (Path.stages path)

def writeFile (t : FileTree) (path content : Bytes) : FileTree :=
  match t.makeDirectories (Path.parent (t.absolute path)) with
  | (t, some _) => t
  | (t, none) =>
    match t.node? (t.absolute path) with
    | some .directory => t
    | some (.database id) => t.put path (.overwritten id content)
    | some (.overwritten id _) => t.put path (.overwritten id content)
    | some (.file _) => t.put path (.file content)
    | none =>
      let name := Bytes.afterLast Path.separator (t.absolute path)
      if (flaw? path).isSome || longestName < name.length then t else t.put path (.file content)

def overwritten? (t : FileTree) (id : DatabaseId) : Option Bytes :=
  t.nodes.values.findSome? fun
    | .overwritten other content => if other = id then some content else none
    | _ => none

def make (workingDirectory : Bytes) : FileTree :=
  (FileTree.makeDirectories ⟨.empty, workingDirectory⟩ workingDirectory).1

end FileTree

end ScriptHost
