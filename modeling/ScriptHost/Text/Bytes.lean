set_option autoImplicit false

/-!
Byte strings. Names, paths, messages and output are all sequences of bytes: they usually hold
UTF-8 text, but nothing guarantees it.
-/

namespace ScriptHost

abbrev Bytes := List UInt8

namespace Bytes

def ofString (s : String) : Bytes :=
  s.toList.flatMap String.utf8EncodeChar

instance : Coe String Bytes := ⟨ofString⟩

def ofChar (c : Char) : Bytes :=
  String.utf8EncodeChar c

def ofNat (n : Nat) : Bytes :=
  (Nat.toDigits 10 n).map fun c => c.toNat.toUInt8

def ofInt : Int → Bytes
  | .ofNat n => ofNat n
  | .negSucc n => 0x2d :: ofNat (n + 1)

def hexDigit (n : Nat) : UInt8 :=
  if n < 10 then (0x30 + n).toUInt8 else (0x57 + n).toUInt8

def hex (s : Bytes) : Bytes :=
  s.flatMap fun b => [hexDigit (b.toNat / 16), hexDigit (b.toNat % 16)]

def hexValue (b : UInt8) : Nat :=
  if b < 0x3a then b.toNat - 0x30 else if b < 0x47 then b.toNat - 0x37 else b.toNat - 0x57

def ofHex : Bytes → Bytes
  | a :: b :: rest => (16 * hexValue a + hexValue b).toUInt8 :: ofHex rest
  | _ => []

theorem hexValue_hexDigit (n : Nat) (h : n < 16) : hexValue (hexDigit n) = n := by
  revert n
  decide

theorem ofHex_hex (s : Bytes) : ofHex (hex s) = s := by
  induction s with
  | nil => rfl
  | cons b s ih =>
    have high := hexValue_hexDigit (b.toNat / 16) (by have := b.toNat_lt; omega)
    have low := hexValue_hexDigit (b.toNat % 16) (by omega)
    have whole : 16 * (b.toNat / 16) + b.toNat % 16 = b.toNat := by omega
    change (16 * hexValue (hexDigit (b.toNat / 16)) + hexValue (hexDigit (b.toNat % 16))).toUInt8
      :: ofHex (hex s) = b :: s
    rw [high, low, whole, ih, Nat.toUInt8_eq, UInt8.ofNat_toNat]

def hexNat (width n : Nat) : Bytes :=
  let digits := (Nat.toDigits 16 n).map fun c => c.toNat.toUInt8
  List.replicate (width - digits.length) 0x30 ++ digits

def startsWith (s start : Bytes) : Bool :=
  start.isPrefixOf s

def split (separator : UInt8) : Bytes → List Bytes
  | [] => [[]]
  | b :: rest =>
    if b = separator then [] :: split separator rest
    else match split separator rest with
      | [] => [[b]]
      | part :: parts => (b :: part) :: parts

def join (separator : Bytes) (parts : List Bytes) : Bytes :=
  separator.intercalate parts

def afterLast (separator : UInt8) (s : Bytes) : Bytes :=
  (s.reverse.takeWhile (· != separator)).reverse

def precedes : Bytes → Bytes → Bool
  | [], _ => true
  | _ :: _, [] => false
  | a :: s, b :: t => if a = b then precedes s t else a < b

def sortBy {α : Type} (key : α → Bytes) (items : List α) : List α :=
  items.mergeSort fun a b => precedes (key a) (key b)

def asciiUpper (s : Bytes) : Bytes :=
  s.map fun b => if 0x61 ≤ b ∧ b ≤ 0x7a then b - 32 else b

def asciiLower (s : Bytes) : Bytes :=
  s.map fun b => if 0x41 ≤ b ∧ b ≤ 0x5a then b + 32 else b

def isAscii (s : Bytes) : Bool :=
  s.all (· < 0x80)

end Bytes

end ScriptHost
