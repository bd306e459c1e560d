import ScriptHost.Toml.Syntax
import ScriptHost.Value

set_option autoImplicit false

namespace ScriptHost.Toml

inductive Tree where
  | scalar (s : Scalar)
  | array (items : List Tree)
  | table (entries : List (Bytes × Tree))
  | tables (before : List (List (Bytes × Tree))) (last : List (Bytes × Tree))

abbrev Entries := List (Bytes × Tree)

def find? (entries : Entries) (name : Bytes) : Option Tree :=
  (entries.find? (·.1 = name)).map (·.2)

def put (entries : Entries) (name : Bytes) (t : Tree) : Entries :=
  if entries.any (·.1 = name) then entries.map fun e => if e.1 = name then (name, t) else e
  else entries ++ [(name, t)]

def updateAt (f : Entries → Option Entries) : List Bytes → Entries → Option Entries
  | [], entries => f entries
  | name :: path, entries =>
    match find? entries name with
    | none => (updateAt f path []).map fun inner => put entries name (.table inner)
    | some (.table inner) =>
      (updateAt f path inner).map fun inner => put entries name (.table inner)
    | some (.tables before last) =>
      (updateAt f path last).map fun last => put entries name (.tables before last)
    | some _ => none

structure Document where
  root : Entries
  implied : List (List Bytes)
  lists : List (List Bytes)

namespace Document

def empty : Document := ⟨[], [], []⟩

def imply (d : Document) (path : List Bytes) : Document :=
  { d with implied := path :: d.implied }

def unimply (d : Document) (path : List Bytes) : Document :=
  { d with implied := d.implied.filter (· ≠ path) }

def update (d : Document) (path : List Bytes) (f : Entries → Option Entries) : Option Document :=
  (updateAt f path d.root).map fun root => { d with root }

def entriesAt : List Bytes → Entries → Option Entries
  | [], entries => some entries
  | name :: path, entries =>
    match find? entries name with
    | some (.table inner) => entriesAt path inner
    | some (.tables _ last) => entriesAt path last
    | _ => none

def record (d : Document) (path : List Bytes) (isList : Bool) : Document :=
  let others := d.lists.filter (· ≠ path)
  { d with lists := if isList then path :: others else others }

def place (path : List Bytes) (name : Bytes) : List Bytes :=
  if name.isEmpty && !path.isEmpty then path else path ++ [name]

def define (d : Document) (path : List Bytes) (name : Bytes) (t : Tree) : Option Document := do
  let whole := path ++ [name]
  let entries ← entriesAt path d.root
  if (find? entries name).isNone then d.update path fun e => some (put e name t)
  else if !d.implied.contains whole then none
  else if d.lists.contains whole then (d.unimply whole).update path fun e => some (put e name t)
  else some (d.unimply whole)

def establish (d : Document) : List Bytes → List Bytes → Option Document
  | _, [] => some d
  | done, name :: path => do
    let entries ← entriesAt done d.root
    let here := done ++ [name]
    match find? entries name with
    | none => establish (← (d.imply here).update here some) here path
    | some (.table _) => establish d here path
    | some (.tables _ _) => establish d here path
    | some _ => none

def openTable (d : Document) (path : List Bytes) : Option Document := do
  let name ← path.getLast?
  let parent := path.dropLast
  define (← establish d [] parent) parent name (.table [])

def openNext (d : Document) (path : List Bytes) : Option Document := do
  let name ← path.getLast?
  let parent := path.dropLast
  (← establish d [] parent).update parent fun entries =>
    match find? entries name with
    | none => some (put entries name (.tables [] []))
    | some (.tables before last) => some (put entries name (.tables (before ++ [last]) []))
    | some _ => none

def openAlong (d : Document) (path : List Bytes) : List Bytes → Option (Document × List Bytes)
  | [] => some (d, path)
  | name :: names => do
    let here := path ++ [name]
    openAlong (← (d.imply here).openTable here) here names

def graft (t : Tree) : List Bytes → Entries → Option Entries
  | [], _ => none
  | [name], entries => some (put entries name t)
  | name :: names, entries =>
    match find? entries name with
    | none => (graft t names []).map fun inner => put entries name (.table inner)
    | some (.table inner) => (graft t names inner).map fun inner => put entries name (.table inner)
    | some _ => none

mutual

def evaluate (d : Document) (path : List Bytes) (name : Bytes) (isItem : Bool) :
    Expression → Option (Document × Tree)
  | .scalar s => some (d, .scalar s)
  | .array items => do
    let (d, xs) ← evaluateItems (d.record (place path name) true) path name items
    some (d, .array xs)
  | .inlineTable entries => do
    let here := path ++ [name]
    let d := d.imply here
    let d ← if isItem then d.openNext here else d.openTable here
    let (d, xs) ← evaluateEntries d here [] entries
    some (d, .table xs)

def evaluateItems (d : Document) (path : List Bytes) (name : Bytes) :
    List Expression → Option (Document × List Tree)
  | [] => some (d, [])
  | x :: rest => do
    let (d, t) ← evaluate d path name true x
    let (d, ts) ← evaluateItems d path name rest
    some (d, t :: ts)

def evaluateEntries (d : Document) (path : List Bytes) (built : Entries) :
    List (List Bytes × Expression) → Option (Document × Entries)
  | [] => some (d, built)
  | (key, x) :: rest => do
    let name ← key.getLast?
    let (d, context) ← d.openAlong path key.dropLast
    let (d, t) ← evaluate d context name false x
    let d := (← d.define context name t).record (place context name) x.isArray
    evaluateEntries d path (← graft t key built) rest

end

def assign (d : Document) (path key : List Bytes) (x : Expression) : Option Document := do
  let name ← key.getLast?
  let (d, context) ← d.openAlong path key.dropLast
  let (d, t) ← evaluate d context name false x
  return (← d.define context name t).record (place context name) x.isArray

def run (d : Document) (path : List Bytes) : List Statement → Option Document
  | [] => some d
  | .header key :: rest => do run ((← d.openTable key).record key false) key rest
  | .arrayHeader key :: rest => do run ((← d.openNext key).record key false) key rest
  | .assignment key x :: rest => do run (← d.assign path key x) path rest

end Document

def read (document : Bytes) : Option Entries := do
  return (← Document.empty.run [] (← parse document)).root

mutual

def Tree.toValue : Tree → Value
  | .scalar (.text s) => .text s
  | .scalar (.integer n) => .int .int64 n
  | .scalar (.float bits) => .float64 bits
  | .scalar (.boolean b) => .bool b
  | .scalar (.time t) => .described t.text
  | .array items => .list (listValues items)
  | .table entries => .map (entryValues entries)
  | .tables before last => .list (tableValues before ++ [.map (entryValues last)])

def listValues : List Tree → List Value
  | [] => []
  | t :: rest => t.toValue :: listValues rest

def entryValues : List (Bytes × Tree) → List (Bytes × Value)
  | [] => []
  | (name, t) :: rest => (name, t.toValue) :: entryValues rest

def tableValues : List (List (Bytes × Tree)) → List Value
  | [] => []
  | entries :: rest => .map (entryValues entries) :: tableValues rest

end

end ScriptHost.Toml
