import ScriptHost.Cache.Location
import ScriptHost.World

set_option autoImplicit false

namespace ScriptHost

inductive OpenError where
  | directory (path : Bytes) (e : FileError)
  | location (e : LocationError)
  | cannotOpen
  | notDatabase
  | noJournal
  | notWritable
deriving DecidableEq, Repr

def OpenError.message : OpenError → Bytes
  | .directory path e => "creating cache dir: mkdir " ++ path ++ ": " ++ e.message
  | .location e => "setting busy timeout: " ++ e.message
  | .cannotOpen => "setting busy timeout: unable to open database file: out of memory (14)"
  | .notDatabase => "creating table: file is not a database (26)"
  | .noJournal => "creating table: unable to open database file (14)"
  | .notWritable => "creating table: attempt to write a readonly database (8)"

namespace Connection

variable {σ α : Type}

def newDatabase (d : Database) : Run σ DatabaseId :=
  modifyGet fun w => (w.databases.next, { w with databases := w.databases.add d })

def newStore (s : Store) : Run σ StoreId :=
  modifyGet fun w => (w.stores.next, { w with stores := w.stores.add s })

def longestPath : Nat := 504

def journalSuffix : Bytes := "-journal"

def reachable? (files : FileTree) (path : Bytes) : Option Bytes :=
  let place := files.absolute path
  let parts := Path.components place
  if parts.isEmpty || longestPath < place.length
      || parts.any (FileTree.longestName < ·.length) then none
  else match files.node? (Path.parent place), files.node? place with
    | some .directory, some .directory => none
    | some .directory, _ => some place
    | _, _ => none

def isBlank (content : Bytes) : Bool := content.length ≤ 1

def databaseAt (place : Bytes) (access : Access) : Run σ (Except OpenError DatabaseId) := do
  let files := (← get).files
  let fillable : Except OpenError Unit :=
    if access = .reading then .error .notWritable
    else if FileTree.longestName
        < (Bytes.afterLast Path.separator place).length + journalSuffix.length then .error .noJournal
    else .ok ()
  match files.node? place with
  | some (.database d) => return .ok d
  | some (.overwritten d content) =>
    if !isBlank content then return .error .notDatabase
    match fillable with
    | .error e => return .error e
    | .ok () =>
      modify fun w => { w with
        files := files.put place (.database d)
        databases := w.databases.modify d fun _ => .empty }
      return .ok d
  | some (.file content) =>
    if !isBlank content then return .error .notDatabase
    match fillable with
    | .error e => return .error e
    | .ok () =>
      let d ← newDatabase .empty
      modify fun w => { w with files := files.put place (.database d) }
      return .ok d
  | _ => return .error .cannotOpen

def prepare (path : Bytes) (access : Access) : Run σ (Except OpenError Bytes) := do
  let files := (← get).files
  match reachable? files path with
  | none => return .error .cannotOpen
  | some place =>
    match files.node? place, access with
    | some _, _ => return .ok place
    | none, .creating =>
      modify fun w => { w with files := files.put place (.file []) }
      return .ok place
    | none, _ => return .error .cannotOpen

def databaseOf (name : Bytes) : Run σ (Except OpenError (DatabaseId × Access)) := do
  match Location.parse name with
  | .error e => return .error (.location e)
  | .ok .transient =>
    match Location.checkParameters name with
    | .error e => return .error (.location e)
    | .ok () => return .ok (← newDatabase .empty, .creating)
  | .ok (.file path access) =>
    match ← prepare path access with
    | .error e => return .error e
    | .ok place =>
      match Location.checkParameters name with
      | .error e => return .error (.location e)
      | .ok () =>
        match ← databaseAt place access with
        | .error e => return .error e
        | .ok d => return .ok (d, access)

def connect (name : Bytes) (now : Int64) : Run σ (Except OpenError StoreId) := do
  let (files, blocked) := (← get).files.makeDirectories (Path.parent name)
  modify fun w => { w with files }
  match blocked with
  | some (path, e) => return .error (.directory path e)
  | none =>
    match ← databaseOf name with
    | .error e => return .error e
    | .ok (database, access) =>
      return .ok (← newStore ⟨database, name, now, access = .reading, false⟩)

def close (s : StoreId) : Run σ Unit :=
  modify fun w => { w with stores := w.stores.modify s fun x => { x with isClosed := true } }

def obstacle? (w : World σ) (store : Store) (action : StoreAction) : Option StoreError :=
  if store.isClosed then some (.closed action)
  else (w.files.overwritten? store.database).map fun content =>
    if isBlank content then .noTable action else .notDatabase action

def reading (s : StoreId) (action : StoreAction) (f : Database → Except StoreError α) :
    Run σ (Except StoreError α) := do
  let w ← get
  let store := w.stores.get s
  match obstacle? w store action with
  | some e => return .error e
  | none => return f (w.databases.get store.database)

def changing (s : StoreId) (action : StoreAction)
    (f : Store → Database → Except StoreError (α × Database)) : Run σ (Except StoreError α) := do
  let w ← get
  let store := w.stores.get s
  if let some e := obstacle? w store action then return .error e
  if store.isReadOnly then return .error (.notWritable action)
  match f store (w.databases.get store.database) with
  | .error e => return .error e
  | .ok (result, rows) =>
    set { w with databases := w.databases.modify store.database fun _ => rows }
    return .ok result

def fetch (s : StoreId) (name sourceDigest : Bytes) : Run σ (Except StoreError (Option Bytes)) :=
  reading s .query fun d => d.fetch name sourceDigest

def save (s : StoreId) (name sourceDigest payload : Bytes) : Run σ (Except StoreError Unit) :=
  changing s .save fun store d => do
    return ((), ← d.save store.now name sourceDigest payload)

def saveRow (s : StoreId) (name : Bytes) (row : Row) : Run σ (Except StoreError Unit) :=
  changing s .save fun _ d => return ((), d.insert name row)

def delete (s : StoreId) (name : Bytes) : Run σ (Except StoreError Unit) :=
  changing s .delete fun _ d => do return ((), ← d.delete name)

def purge (s : StoreId) : Run σ (Except StoreError Nat) :=
  changing s .purge fun _ d => return (d.size, .empty)

def list (s : StoreId) : Run σ (Except StoreError (List StoreEntry)) :=
  reading s .list fun d => return d.list

end Connection

end ScriptHost
