import ScriptHost.Text.Quoted

set_option autoImplicit false

namespace ScriptHost

inductive Access where
  | creating
  | writing
  | reading
deriving DecidableEq, Repr

inductive Location where
  | transient
  | file (path : Bytes) (access : Access)
deriving DecidableEq, Repr

inductive LocationError where
  | escape (text : Bytes)
  | semicolon
  | severalSystems (names : List Bytes)
  | refused
  | option (name value : Bytes)
deriving DecidableEq, Repr

def LocationError.message : LocationError → Bytes
  | .escape text => "invalid URL escape " ++ Text.quote .printable text
  | .semicolon => "invalid semicolon separator in query"
  | .severalSystems names =>
    "multiple vfs query parameters: [" ++ Bytes.join " " names ++ "]"
  | .refused => "SQL logic error: out of memory (1)"
  | .option name value => "unknown " ++ name ++ " " ++ Text.quote .printable value

namespace Location

def cut (separator : UInt8) (s : Bytes) : Bytes × Option Bytes :=
  match s.span (· != separator) with
  | (a, []) => (a, none)
  | (a, _ :: b) => (a, some b)

def isHex (b : UInt8) : Bool :=
  0x30 ≤ b && b ≤ 0x39 || 0x41 ≤ b && b ≤ 0x46 || 0x61 ≤ b && b ≤ 0x66

def unescape : Bytes → Except LocationError Bytes
  | 0x25 :: a :: b :: rest =>
    if isHex a && isHex b then
      (unescape rest).map ((16 * Bytes.hexValue a + Bytes.hexValue b).toUInt8 :: ·)
    else .error (.escape [0x25, a, b])
  | 0x25 :: rest => .error (.escape (0x25 :: rest))
  | 0x2b :: rest => (unescape rest).map (0x20 :: ·)
  | b :: rest => (unescape rest).map (b :: ·)
  | [] => .ok []

def parameter (part : Bytes) : Except LocationError (Option (Bytes × Bytes)) :=
  if part.contains 0x3b then .error .semicolon
  else if part.isEmpty then .ok none
  else do
    let (key, value) := cut 0x3d part
    return some (← unescape key, ← unescape (value.getD []))

def parameters (query : Bytes) : Except LocationError (List (Bytes × Bytes)) :=
  let parts := (Bytes.split 0x26 query).map parameter
  let errors := parts.filterMap fun
    | .error e => some e
    | .ok _ => none
  if errors.contains .semicolon then .error .semicolon
  else match errors with
    | e :: _ => .error e
    | [] => .ok (parts.filterMap fun
      | .ok p => p
      | .error _ => none)

def decode : Bytes → Bytes
  | 0x25 :: a :: b :: rest =>
    if isHex a && isHex b then
      let octet := (16 * Bytes.hexValue a + Bytes.hexValue b).toUInt8
      if octet = 0 then [] else octet :: decode rest
    else 0x25 :: decode (a :: b :: rest)
  | b :: rest => b :: decode rest
  | [] => []

def options (query : Bytes) : List (Bytes × Bytes) :=
  ((Bytes.split 0x26 query).map fun part =>
    let (key, value) := cut 0x3d part
    (decode key, decode (value.getD []))).filter (!·.1.isEmpty)

def withoutHost? (s : Bytes) : Option Bytes :=
  match s with
  | 0x2f :: 0x2f :: rest =>
    let host := rest.takeWhile (· != 0x2f)
    if host.isEmpty || host = Bytes.ofString "localhost" then some (rest.drop host.length)
    else none
  | s => some s

def systems : List Bytes := ["unix", "unix-none", "unix-dotfile", "unix-excl"].map Bytes.ofString

def interpret (path : Bytes) (options : List (Bytes × Bytes)) (system : Bytes) :
    Except LocationError Location :=
  let named (name : String) : List Bytes :=
    (options.filter (·.1 = Bytes.ofString name)).map (·.2)
  let allowed (name : String) (values : List String) : Bool :=
    (named name).all fun v => (values.map Bytes.ofString).contains v
  let system := (named "vfs").getLast?.getD system
  let mode := (named "mode").getLast?.getD []
  if !allowed "cache" ["shared", "private"] || !allowed "mode" ["ro", "rw", "rwc", "memory"]
      || !(system.isEmpty || systems.contains system) then .error .refused
  else if path.isEmpty || path = Bytes.ofString ":memory:" || mode = Bytes.ofString "memory" then
    .ok .transient
  else if mode = Bytes.ofString "ro" then .ok (.file path .reading)
  else if mode = Bytes.ofString "rw" then .ok (.file path .writing)
  else .ok (.file path .creating)

def scheme : Bytes := "file:"

def ofAddress (address system : Bytes) : Except LocationError Location :=
  match withoutHost? (address.drop scheme.length) with
  | none => .error .refused
  | some rest =>
    let (path, query) := cut 0x3f (rest.takeWhile (· != 0x23))
    interpret (decode path) (options (query.getD [])) system

def query (name : Bytes) : Bytes :=
  match cut 0x3f name with
  | (_ :: _, some query) => query
  | _ => []

def system (values : List Bytes) : Except LocationError Bytes :=
  values.foldlM (fun before v =>
    if before.isEmpty || before = v then .ok v else .error (.severalSystems values)) []

def parse (name : Bytes) : Except LocationError Location := do
  let parameters ← parameters (query name)
  let system ← system ((parameters.filter (·.1 = Bytes.ofString "vfs")).map (·.2))
  let visible (s : Bytes) : Bytes := s.takeWhile (· != 0)
  if name.startsWith scheme then ofAddress (visible name) system
  else
    let path := match cut 0x3f name with
      | (b :: path, some _) => b :: path
      | _ => name
    interpret (visible path) [] system

def checkParameters (name : Bytes) : Except LocationError Unit := do
  let parameters ← parameters (query name)
  let value (name : String) : Bytes :=
    ((parameters.find? (·.1 = Bytes.ofString name)).map (·.2)).getD []
  let check (name : String) (v : Bytes) (allowed : List String) : Except LocationError Unit :=
    if value name = [] || (allowed.map Bytes.ofString).contains v then .ok ()
    else .error (.option name (value name))
  check "_time_format" (value "_time_format") ["sqlite"]
  check "_txlock" (value "_txlock").asciiLower ["deferred", "immediate", "exclusive"]

end Location

end ScriptHost
