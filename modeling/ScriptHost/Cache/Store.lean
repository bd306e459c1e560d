import ScriptHost.Cache.Envelope
import ScriptHost.Identity
import ScriptHost.Table

set_option autoImplicit false

namespace ScriptHost

structure Row where
  sourceDigest : Bytes
  envelope : Bytes
  storedAt : Int64
deriving DecidableEq, Repr

abbrev Database := Table Row

structure Store where
  database : DatabaseId
  path : Bytes
  now : Int64
  isReadOnly : Bool
  isClosed : Bool
deriving DecidableEq, Repr, Inhabited

inductive StoreAction where
  | save
  | query
  | delete
  | list
  | purge
deriving DecidableEq, Repr

def StoreAction.message : StoreAction → Bytes
  | .save => "saving module"
  | .query => "querying module"
  | .delete => "deleting module"
  | .list => "listing modules"
  | .purge => "purging modules"

inductive StoreError where
  | closed (action : StoreAction)
  | notDatabase (action : StoreAction)
  | noTable (action : StoreAction)
  | notWritable (action : StoreAction)
  | missingDigest
  | notFound
  | corrupt (c : Corruption)
deriving DecidableEq, Repr

namespace StoreError

def message : StoreError → Bytes
  | .closed action => action.message ++ ": sql: database is closed"
  | .notDatabase action => action.message ++ ": file is not a database (26)"
  | .noTable action => action.message ++ ": SQL logic error: no such table: modules (1)"
  | .notWritable action => action.message ++ ": attempt to write a readonly database (8)"
  | .missingDigest => "saving module: constraint failed: "
      ++ "NOT NULL constraint failed: modules.source_digest (1299)"
  | .notFound => "modcache: module not found"
  | .corrupt c => c.message

end StoreError

structure StoreEntry where
  name : Bytes
  sourceDigest : Bytes
  size : Nat
  storedAt : Int64
deriving DecidableEq, Repr

namespace Database

def fetch (d : Database) (name sourceDigest : Bytes) : Except StoreError (Option Bytes) :=
  match d.get? name with
  | none => .ok none
  | some row =>
    match Envelope.decode row.envelope with
    | none => .error (.corrupt .unreadable)
    | some e =>
      match e.verify with
      | .error c => .error (.corrupt c)
      | .ok () =>
        if e.name ≠ name then .error (.corrupt (.misplaced e.name name))
        else if e.isFrom sourceDigest then .ok (some e.payload)
        else .ok none

def save (d : Database) (now : Int64) (name sourceDigest payload : Bytes) :
    Except StoreError Database :=
  let e := Envelope.wrap name sourceDigest payload now
  match e.sourceDigest with
  | none => .error .missingDigest
  | some digest => .ok (d.insert name ⟨digest, e.encode, now⟩)

def delete (d : Database) (name : Bytes) : Except StoreError Database :=
  if d.contains name then .ok (d.erase name) else .error .notFound

def list (d : Database) : List StoreEntry :=
  d.sorted.map fun (name, row) => ⟨name, row.sourceDigest, row.envelope.length, row.storedAt⟩

end Database

end ScriptHost
