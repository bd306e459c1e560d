import ScriptHost.Cache.Cbor
import ScriptHost.Digest.Sha256

set_option autoImplicit false

namespace ScriptHost

def digest32 (s : Bytes) : Vector UInt8 32 :=
  Vector.ofFn fun i => s.getD i 0

structure Envelope where
  version : Int64
  name : Bytes
  sourceDigest : Option Bytes
  payloadDigest : Vector UInt8 32
  storedAt : Int64
  payload : Bytes
deriving DecidableEq, Repr

inductive Corruption where
  | unreadable
  | version (name : Bytes) (number : Int64)
  | payloadDigest (name : Bytes)
  | misplaced (name found : Bytes)
deriving DecidableEq, Repr

namespace Corruption

def message (c : Corruption) : Bytes :=
  "modcache: corrupt entry: " ++
    match c with
    | .unreadable => "unmarshal envelope"
    | .version name number => name ++ ": version " ++ Bytes.ofInt number.toInt
    | .payloadDigest name => name ++ ": payload digest mismatch"
    | .misplaced name found => name ++ " stored under " ++ found

end Corruption

namespace Envelope

def currentVersion : Int64 := 1

def zero : Envelope := ⟨0, [], none, digest32 [], 0, []⟩

def wrap (name sourceDigest payload : Bytes) (storedAt : Int64) : Envelope where
  version := currentVersion
  name
  sourceDigest := if sourceDigest.isEmpty then none else some sourceDigest
  payloadDigest := digest32 (Sha256.digest payload)
  storedAt
  payload

def verify (e : Envelope) : Except Corruption Unit :=
  if e.version ≠ currentVersion then .error (.version e.name e.version)
  else if digest32 (Sha256.digest e.payload) ≠ e.payloadDigest then .error (.payloadDigest e.name)
  else .ok ()

def isFrom (e : Envelope) (sourceDigest : Bytes) : Bool :=
  e.sourceDigest.getD [] = sourceDigest

def ofInt (n : Int64) : Cbor :=
  if 0 ≤ n then .unsigned n.toInt.toNat else .negative (-1 - n.toInt).toNat

def toCbor (e : Envelope) : Cbor :=
  let source := match e.sourceDigest with
    | some d => Cbor.bytes d
    | none => Cbor.null
  .map ([
    (.unsigned 1, ofInt e.version),
    (.unsigned 2, .text [e.name]),
    (.unsigned 3, source),
    (.unsigned 4, .bytes e.payloadDigest.toList),
    (.unsigned 5, ofInt e.storedAt)]
    ++ if e.payload.isEmpty then [] else [(.unsigned 6, .bytes e.payload)])

def encode (e : Envelope) : Bytes := e.toCbor.encode

def untagged : Cbor → Option Cbor
  | .tag 0 (.text parts) => some (.text parts)
  | .tag 0 _ => none
  | .tag 1 (.unsigned n) => some (.unsigned n)
  | .tag 1 (.negative n) => some (.negative n)
  | .tag 1 (.float width bits) => some (.float width bits)
  | .tag 1 _ => none
  | .tag 2 (.bytes s) => some (.tag 2 (.bytes s))
  | .tag 3 (.bytes s) => some (.tag 3 (.bytes s))
  | .tag 2 _ => none
  | .tag 3 _ => none
  | .tag _ content => untagged content
  | item => some item

def isNothing : Cbor → Bool
  | .simple n => n = 22 ∨ n = 23
  | _ => false

def simpleNumber? (n : Nat) : Option Nat :=
  if n = 20 ∨ n = 21 then none else if n = 22 ∨ n = 23 then some 0 else some n

def word? (n : Int) : Option Int64 :=
  if -2 ^ 63 ≤ n ∧ n < 2 ^ 63 then some (Int64.ofInt n) else none

def int? (item : Cbor) : Option Int64 :=
  match untagged item with
  | some (.unsigned n) => word? n
  | some (.negative n) => word? (-1 - n)
  | some (.tag 2 (.bytes s)) => word? (Cbor.ofBigEndian s)
  | some (.tag 3 (.bytes s)) => word? (-1 - Cbor.ofBigEndian s)
  | some (.simple n) => (simpleNumber? n).map Int64.ofNat
  | _ => none

def wellFormed? (parts : List Bytes) : Option Bytes :=
  if parts.all Bytes.isText then some parts.flatten else none

def text? (item : Cbor) : Option Bytes :=
  match untagged item with
  | some (.text parts) => wellFormed? parts
  | some item => if isNothing item then some [] else none
  | none => none

def byte? (item : Cbor) : Option UInt8 :=
  let octet? (n : Nat) : Option UInt8 := if n < 256 then some n.toUInt8 else none
  match untagged item with
  | some (.unsigned n) => octet? n
  | some (.tag 2 (.bytes s)) => octet? (Cbor.ofBigEndian s)
  | some (.simple n) => (simpleNumber? n).map Nat.toUInt8
  | _ => none

def bytes? (limit : Nat) (item : Cbor) : Option (Option Bytes) :=
  match untagged item with
  | some (.bytes s) => some (some s)
  | some (.tag _ (.bytes s)) => some (some s)
  | some (.array items) => ((items.take limit).mapM byte?).map some
  | some item => if isNothing item then some none else none
  | none => none

def isKey : Cbor → Bool
  | .unsigned _ => true
  | .negative n => n < 2 ^ 63
  | .text parts => (wellFormed? parts).isSome
  | _ => false

def field? (entries : List (Cbor × Cbor)) (key : Nat) : Option Cbor :=
  (entries.find? fun
    | (.unsigned n, _) => n = key
    | (.text parts, _) => parts.flatten = Bytes.ofNat key
    | _ => false).map (·.2)

def ofEntries (entries : List (Cbor × Cbor)) : Option Envelope := do
  let read {α : Type} (key : Nat) (missing : α) (convert : Cbor → Option α) : Option α :=
    match field? entries key with
    | some item => convert item
    | none => some missing
  if entries.all (isKey ·.1) then
    some {
      version := ← read 1 0 int?
      name := ← read 2 [] text?
      sourceDigest := ← read 3 none (bytes? Cbor.longest)
      payloadDigest := digest32 ((← read 4 none (bytes? 32)).getD [])
      storedAt := ← read 5 0 int?
      payload := (← read 6 none (bytes? Cbor.longest)).getD [] }
  else none

def ofCbor (item : Cbor) : Option Envelope :=
  match untagged item with
  | some (.map entries) => ofEntries entries
  | some item => if isNothing item then some zero else none
  | none => none

def decode (s : Bytes) : Option Envelope :=
  (Cbor.decode s).bind ofCbor

end Envelope

end ScriptHost
