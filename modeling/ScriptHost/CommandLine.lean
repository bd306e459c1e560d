import ScriptHost.Execution
import ScriptHost.Manifest

set_option autoImplicit false

namespace ScriptHost

inductive UsageError where
  | unknownOption (name : Bytes)
  | missingArgument (name : Bytes)
  | badSyntax (argument : Bytes)
  | badBoolean (name value : Bytes)
  | help
deriving DecidableEq, Repr

def UsageError.message : UsageError → Bytes
  | .unknownOption name => "flag provided but not defined: -" ++ name ++ "\n"
  | .missingArgument name => "flag needs an argument: -" ++ name ++ "\n"
  | .badSyntax argument => "bad flag syntax: " ++ argument ++ "\n"
  | .badBoolean name value =>
    "invalid boolean value " ++ Text.quote .printable value ++ " for -" ++ name ++ ": parse error\n"
  | .help => []

structure Options where
  isVerbose : Bool := false
  directory : Bytes := "."
deriving DecidableEq, Repr

namespace Options

def boolean? (value : Bytes) : Option Bool :=
  if ["1", "t", "T", "true", "TRUE", "True"].any (Bytes.ofString · = value) then some true
  else if ["0", "f", "F", "false", "FALSE", "False"].any (Bytes.ofString · = value) then some false
  else none

def splitValue (option : Bytes) : Bytes × Option Bytes :=
  match option.dropWhile (· != 0x3d) with
  | [] => (option, none)
  | _ :: value => (option.takeWhile (· != 0x3d), some value)

inductive Argument where
  | option (text : Bytes)
  | separator
  | operand
  | malformed
deriving DecidableEq, Repr

def Argument.classify (argument : Bytes) : Argument :=
  let option (name : Bytes) : Argument :=
    match name with
    | [] => .malformed
    | b :: _ => if b = 0x2d ∨ b = 0x3d then .malformed else .option name
  match argument with
  | [0x2d, 0x2d] => .separator
  | 0x2d :: 0x2d :: name => option name
  | 0x2d :: b :: rest => option (b :: rest)
  | _ => .operand

def parse (o : Options) : List Bytes → Except UsageError (Options × List Bytes)
  | [] => .ok (o, [])
  | argument :: rest =>
    match Argument.classify argument with
    | .operand => .ok (o, argument :: rest)
    | .separator => .ok (o, rest)
    | .malformed => .error (.badSyntax argument)
    | .option option =>
      let (name, value) := splitValue option
      if name = Bytes.ofString "v" then
        match value with
        | none => parse { o with isVerbose := true } rest
        | some value =>
          match boolean? value with
          | some isVerbose => parse { o with isVerbose } rest
          | none => .error (.badBoolean name value)
      else if name = Bytes.ofString "dir" then
        match value, rest with
        | some directory, rest => parse { o with directory } rest
        | none, directory :: rest => parse { o with directory } rest
        | none, [] => .error (.missingArgument name)
      else if name = Bytes.ofString "help" ∨ name = Bytes.ofString "h" then .error .help
      else .error (.unknownOption name)

end Options

inductive CommandError where
  | unknownCommand (name : Bytes)
  | oneNameExpected
  | cacheDisabled
  | cannotOpen (e : OpenError)
  | store (e : StoreError)
deriving DecidableEq, Repr

def CommandError.message : CommandError → Bytes
  | .unknownCommand name => "unknown command " ++ Text.quote .printable name
  | .oneNameExpected => "cache-rm takes exactly one module name"
  | .cacheDisabled => "module cache is disabled in " ++ Manifest.fileName
  | .cannotOpen e => e.message
  | .store e => e.message

namespace Command

variable {σ : Type}

def newSink (s : Sink) : Run σ SinkId :=
  modifyGet fun w => (w.sinks.next, { w with sinks := w.sinks.add s })

def configLines (m : Manifest) (x : Context) (settings : List (Bytes × Bytes)) : List Bytes :=
  let name : Bytes := if m.name.isEmpty then "(unnamed)" else m.name
  let cache : Bytes := if m.isCacheEnabled then m.cachePath else "disabled"
  let searched := Bytes.join [Path.listSeparator] x.searchPath.directories
  let mask := Bytes.ofInt x.diagnostics.mask.bits.toInt
  [ "project:         " ++ name ++ " " ++ m.version ++ "\n",
    "manifest dir:    " ++ m.directory ++ "\n",
    "error_reporting: " ++ mask ++ "\n",
    "include_path:    " ++ searched ++ "\n",
    "module cache:    " ++ cache ++ "\n" ]
    ++ (if settings.isEmpty then [] else [Bytes.ofString "\n[ini]\n"])
    ++ settings.map fun (key, value) => key ++ " = " ++ Text.quote .printable value ++ "\n"

def showConfig (h : Host σ) (m : Manifest) : Run σ Bytes := do
  let sink ← newSink {}
  let s ← ScopeRegistry.make (m.configure { ids := ← ScopeRegistry.makeAllocator })
  let c ← Execution.create h s sink {}
  let settings ← Settings.values c [] true
  for line in configLines m (← Run.context c) settings.sorted do
    Output.echoBytes h c line
  Execution.shutdown h c
  return ((← get).sinks.get sink).contents

def padRight (width : Nat) (s : Bytes) : Bytes :=
  s ++ List.replicate (width - s.runes.length) 0x20

def padLeft (width : Nat) (s : Bytes) : Bytes :=
  List.replicate (width - s.length) 0x20 ++ s

def listing (entries : List StoreEntry) : Bytes :=
  if entries.isEmpty then "module cache is empty\n"
  else entries.flatMap fun e =>
    padRight 40 e.name ++ " " ++ padLeft 8 (Bytes.ofNat e.size) ++ "  "
      ++ Bytes.hex (e.sourceDigest.take 6) ++ "  " ++ momentText e.storedAt.toInt ++ "\n"

def withCache (m : Manifest) (now : Int64) (use : StoreId → Run σ (Except StoreError Bytes)) :
    Run σ (Except CommandError Bytes) := do
  match ← m.openCache now with
  | .error e => return .error (.cannotOpen e)
  | .ok none => return .error .cacheDisabled
  | .ok (some s) =>
    let result ← Run.ensuring (use s) (Connection.close s)
    return result.mapError .store

def run (h : Host σ) (m : Manifest) (now : Int64) (command : Bytes) (args : List Bytes) :
    Run σ (Except CommandError Bytes) := do
  if command = Bytes.ofString "config" then return .ok (← showConfig h m)
  else if command = Bytes.ofString "cache-ls" then
    withCache m now fun s => return (← Connection.list s).map listing
  else if command = Bytes.ofString "cache-rm" then
    match args with
    | [name] =>
      withCache m now fun s =>
        return (← Connection.delete s name).map fun _ => "removed " ++ name ++ "\n"
    | _ => return .error .oneNameExpected
  else if command = Bytes.ofString "cache-purge" then
    withCache m now fun s =>
      return (← Connection.purge s).map fun n => "purged " ++ Bytes.ofNat n ++ " module(s)\n"
  else return .error (.unknownCommand command)

end Command

namespace CommandLine

variable {σ : Type}

structure Outcome where
  output : Bytes := []
  errors : Bytes := []
  code : Nat := 0
deriving DecidableEq, Repr

def usage : Bytes :=
  "Usage: phpenv [options] <command> [args]\n\n"
    ++ "Commands:\n"
    ++ "  config             Print the effective configuration\n"
    ++ "  cache-ls           List cached modules\n"
    ++ "  cache-rm <name>    Remove one cached module\n"
    ++ "  cache-purge        Remove every cached module\n"
    ++ "\nOptions:\n"
    ++ "  -dir string\n"
    ++ "    \tProject directory (searched upward for " ++ Manifest.fileName
    ++ ") (default \".\")\n"
    ++ "  -v\tVerbose output\n"

def misused (e : UsageError) : Outcome where
  errors := e.message ++ usage
  code := if e = .help then 0 else 2

def failed (message : Bytes) : Outcome where
  errors := "Error: " ++ message ++ "\n"
  code := 1

def run (h : Host σ) (now : Int64) (args : List Bytes) : Run σ Outcome := do
  match Options.parse {} args with
  | .error e => return misused e
  | .ok (_, []) => return { errors := usage, code := 2 }
  | .ok (options, command :: args) =>
    match Manifest.find (← get).files options.directory with
    | .error e => return failed e.message
    | .ok none =>
      return failed
        ("no " ++ Manifest.fileName ++ " found in " ++ options.directory ++ " or its parents")
    | .ok (some m) =>
      match ← Command.run h m now command args with
      | .error e => return failed e.message
      | .ok output => return { output }

end CommandLine

end ScriptHost
