import ScriptHost.Number.Power
import ScriptHost.Text.Rune

set_option autoImplicit false

namespace ScriptHost

inductive Cbor where
  | unsigned (n : Nat)
  | negative (n : Nat)
  | bytes (s : Bytes)
  | text (parts : List Bytes)
  | array (items : List Cbor)
  | map (entries : List (Cbor × Cbor))
  | tag (number : Nat) (content : Cbor)
  | simple (n : Nat)
  | float (width : Nat) (bits : Nat)

namespace Cbor

def null : Cbor := .simple 22

def undefined : Cbor := .simple 23

def bigEndian (width n : Nat) : Bytes :=
  (List.range width).reverse.map fun i => (n / 256 ^ i).toUInt8

def ofBigEndian (s : Bytes) : Nat :=
  s.foldl (fun n b => 256 * n + b.toNat) 0

def head (major argument : Nat) : Bytes :=
  let first (info : Nat) : UInt8 := (32 * major + info).toUInt8
  if argument < 24 then [first argument]
  else if argument < 2 ^ 8 then first 24 :: bigEndian 1 argument
  else if argument < 2 ^ 16 then first 25 :: bigEndian 2 argument
  else if argument < 2 ^ 32 then first 26 :: bigEndian 4 argument
  else first 27 :: bigEndian 8 argument

mutual

def encode : Cbor → Bytes
  | .unsigned n => head 0 n
  | .negative n => head 1 n
  | .bytes s => head 2 s.length ++ s
  | .text parts => head 3 parts.flatten.length ++ parts.flatten
  | .array items => head 4 items.length ++ encodeItems items
  | .map entries => head 5 entries.length ++ encodeEntries entries
  | .tag number content => head 6 number ++ encode content
  | .simple n => head 7 n
  | .float width bits =>
    (if width = 2 then 0xf9 else if width = 4 then 0xfa else 0xfb) :: bigEndian width bits

def encodeItems : List Cbor → Bytes
  | [] => []
  | item :: rest => encode item ++ encodeItems rest

def encodeEntries : List (Cbor × Cbor) → Bytes
  | [] => []
  | (key, value) :: rest => encode key ++ (encode value ++ encodeEntries rest)

end

def deepest : Nat := 32

def longest : Nat := 131072

def argument (info : Nat) (s : Bytes) : Option (Option Nat × Bytes) :=
  let wide (width : Nat) : Option (Option Nat × Bytes) :=
    if s.length < width then none
    else some (some (ofBigEndian (s.take width)), s.drop width)
  if info < 24 then some (some info, s)
  else if info = 24 then wide 1
  else if info = 25 then wide 2
  else if info = 26 then wide 4
  else if info = 27 then wide 8
  else if info = 31 then some (none, s)
  else none

def takeString (length : Nat) (s : Bytes) : Option (Bytes × Bytes) :=
  if s.length < length then none else some (s.take length, s.drop length)

def chunks (major : Nat) : Nat → Bytes → Option (List Bytes × Bytes)
  | 0, _ => none
  | _, [] => none
  | bound + 1, b :: rest =>
    if b = 0xff then some ([], rest)
    else if b.toNat / 32 ≠ major then none
    else match argument (b.toNat % 32) rest with
      | some (some length, rest) => do
        let (part, rest) ← takeString length rest
        let (more, rest) ← chunks major bound rest
        some (part :: more, rest)
      | _ => none

def simpleItem (info : Nat) (value : Nat) (rest : Bytes) : Option (Cbor × Bytes) :=
  if info < 24 then some (.simple value, rest)
  else if info = 24 then if value < 32 then none else some (.simple value, rest)
  else if info = 25 then some (.float 2 value, rest)
  else if info = 26 then some (.float 4 value, rest)
  else some (.float 8 value, rest)

mutual

/-- One item. Every step uses a byte or ends a sequence, so twice the length of the input is
bound enough. Arrays and maps nest, and so does a tag that is right inside another one. -/
def item (isTagged : Bool) : Nat → Nat → Bytes → Option (Cbor × Bytes)
  | 0, _, _ => none
  | _, _, [] => none
  | bound + 1, depth, b :: rest =>
    let info := b.toNat % 32
    match argument info rest, b.toNat / 32 with
    | none, _ => none
    | some (some n, rest), 0 => some (.unsigned n, rest)
    | some (some n, rest), 1 => some (.negative n, rest)
    | some (some n, rest), 2 => (takeString n rest).map fun (s, rest) => (.bytes s, rest)
    | some (none, rest), 2 =>
      (chunks 2 bound rest).map fun (parts, rest) => (.bytes parts.flatten, rest)
    | some (some n, rest), 3 => (takeString n rest).map fun (s, rest) => (.text [s], rest)
    | some (none, rest), 3 => (chunks 3 bound rest).map fun (parts, rest) => (.text parts, rest)
    | some (count, rest), 4 =>
      if depth = 0 ∨ longest < count.getD 0 then none
      else match items bound (depth - 1) count rest with
        | some (xs, rest) => if longest < xs.length then none else some (.array xs, rest)
        | none => none
    | some (count, rest), 5 =>
      if depth = 0 ∨ longest < count.getD 0 then none
      else match entries bound (depth - 1) count rest with
        | some (xs, rest) => if longest < xs.length then none else some (.map xs, rest)
        | none => none
    | some (some number, rest), 6 =>
      if isTagged ∧ depth = 0 then none
      else
        (item true bound (if isTagged then depth - 1 else depth) rest).map
          fun (x, rest) => (.tag number x, rest)
    | some (some n, rest), 7 => simpleItem info n rest
    | _, _ => none

def items : Nat → Nat → Option Nat → Bytes → Option (List Cbor × Bytes)
  | 0, _, _, _ => none
  | _, _, some 0, rest => some ([], rest)
  | _, _, none, 0xff :: rest => some ([], rest)
  | bound + 1, depth, count, rest => do
    let (x, rest) ← item false bound depth rest
    let (xs, rest) ← items bound depth (count.map (· - 1)) rest
    some (x :: xs, rest)

def entries : Nat → Nat → Option Nat → Bytes → Option (List (Cbor × Cbor) × Bytes)
  | 0, _, _, _ => none
  | _, _, some 0, rest => some ([], rest)
  | _, _, none, 0xff :: rest => some ([], rest)
  | bound + 1, depth, count, rest => do
    let (key, rest) ← item false bound depth rest
    let (value, rest) ← item false bound depth rest
    let (xs, rest) ← entries bound depth (count.map (· - 1)) rest
    some ((key, value) :: xs, rest)

end

def decode (s : Bytes) : Option Cbor :=
  match item false (2 * s.length + 2) deepest s with
  | some (x, []) => some x
  | _ => none

end Cbor

end ScriptHost
