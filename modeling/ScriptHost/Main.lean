import ScriptHost.Cache.Archive
import ScriptHost.CommandLine

set_option autoImplicit false

namespace ScriptHost.Program

def ofBytes (s : ByteArray) : Bytes := s.toList

def toPath (s : Bytes) : String := (String.fromUTF8? s.toByteArray).getD ""

def load? (path : Bytes) : IO (Option Bytes) := do
  match ← (IO.FS.readBinFile (toPath path)).toBaseIO with
  | .ok content => return some (ofBytes content)
  | .error _ => return none

def loadManifests (tree : FileTree) (directory : Bytes) : IO FileTree := do
  let mut tree := tree
  for d in Manifest.searched tree directory do
    let path := Path.join [d, Manifest.fileName]
    if let some content ← load? path then tree := tree.writeFile path content
  return tree

def cacheFile (m : Manifest) : Bytes :=
  match Location.parse m.cachePath with
  | .ok (.file path _) => path
  | _ => m.cachePath

def loadCache (w : World Unit) (m : Manifest) : IO (World Unit) := do
  let path := cacheFile m
  let some content ← load? path | return w
  let files := w.files.writeFile path content
  match Archive.read? content with
  | none => return { w with files }
  | some rows =>
    return { w with
      databases := w.databases.add rows
      files := files.put path (.database w.databases.next) }

def saveCache (w : World Unit) (m : Manifest) : IO Unit := do
  let path := cacheFile m
  let some (.database d) := w.files.node? (w.files.absolute path) | return
  IO.FS.createDirAll (toPath (Path.parent path))
  IO.FS.writeBinFile (toPath path) (Archive.write (w.databases.get d)).toByteArray

def selected? (files : FileTree) (args : List Bytes) : Option Manifest :=
  match Options.parse {} args with
  | .ok (options, _ :: _) => (Manifest.find files options.directory).toOption.join
  | _ => none

def directory (args : List Bytes) : Bytes :=
  match Options.parse {} args with
  | .ok (options, _) => options.directory
  | .error _ => "."

def run (args : List Bytes) : IO CommandLine.Outcome := do
  let files ← loadManifests (FileTree.make (← IO.currentDir).toString) (directory args)
  let manifest := selected? files args
  let start : World Unit := { files, observers := standardObservers, embedder := () }
  let w ← manifest.elim (pure start) (loadCache start)
  match CommandLine.run Host.idle 0 args w with
  | (.ok outcome, w) =>
    manifest.forM (saveCache w)
    return outcome
  | (.error _, _) => return CommandLine.failed "the command was unwound"

end ScriptHost.Program

def main (args : List String) : IO UInt32 := do
  let outcome ← ScriptHost.Program.run (args.map ScriptHost.Bytes.ofString)
  (← IO.getStdout).write outcome.output.toByteArray
  (← IO.getStderr).write outcome.errors.toByteArray
  return outcome.code.toUInt32
