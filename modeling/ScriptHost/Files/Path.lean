import ScriptHost.Text.Bytes

set_option autoImplicit false

namespace ScriptHost.Path

def separator : UInt8 := 0x2f

def listSeparator : UInt8 := 0x3a

def up : Bytes := ".."

def isAbsolute (path : Bytes) : Bool :=
  path.head? = some separator

def components (path : Bytes) : List Bytes :=
  (Bytes.split separator path).filter fun c => c ≠ [] ∧ c ≠ Bytes.ofString "."

def resolve (rooted : Bool) : List Bytes → List Bytes → List Bytes
  | position, [] => position
  | position, c :: rest =>
    if c = up then
      match position with
      | [] => resolve rooted (if rooted then [] else [up]) rest
      | last :: before =>
        if last = up then resolve rooted (up :: last :: before) rest
        else resolve rooted before rest
    else resolve rooted (c :: position) rest

def render (rooted : Bool) (parts : List Bytes) : Bytes :=
  if rooted then separator :: Bytes.join [separator] parts
  else if parts.isEmpty then "."
  else Bytes.join [separator] parts

def clean (path : Bytes) : Bytes :=
  let rooted := isAbsolute path
  render rooted (resolve rooted [] (components path)).reverse

def join (parts : List Bytes) : Bytes :=
  let parts := parts.filter (!·.isEmpty)
  if parts.isEmpty then [] else clean (Bytes.join [separator] parts)

def parent (path : Bytes) : Bytes :=
  clean (path.reverse.dropWhile (· != separator)).reverse

def absolute (workingDirectory path : Bytes) : Bytes :=
  if isAbsolute path then clean path else join [workingDirectory, path]

def splitList (paths : Bytes) : List Bytes :=
  if paths.isEmpty then [] else Bytes.split listSeparator paths

def stages (path : Bytes) : List Bytes :=
  let rooted := isAbsolute path
  let parts := components path
  (List.range parts.length).map fun n => render rooted (parts.take (n + 1))

end ScriptHost.Path
