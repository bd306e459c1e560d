import ScriptHost.Number.Power
import ScriptHost.Template.Layout
import ScriptHost.Text.Quoted

set_option autoImplicit false

namespace ScriptHost.Template

inductive Radix where
  | decimal
  | binary
  | octal (marked : Bool)
  | hexadecimal (upper : Bool)
deriving DecidableEq, Repr

namespace Radix

def base : Radix → Nat
  | .decimal => 10
  | .binary => 2
  | .octal _ => 8
  | .hexadecimal _ => 16

def digits (radix : Radix) (n : Nat) : Bytes :=
  let lower := (Nat.toDigits radix.base n).map fun c => c.toNat.toUInt8
  match radix with
  | .hexadecimal true => Bytes.asciiUpper lower
  | _ => lower

def mark (radix : Radix) (digits : Bytes) : Bytes :=
  match radix with
  | .decimal => []
  | .binary => "0b"
  | .octal _ => if digits.head? = some 0x30 then [] else "0"
  | .hexadecimal upper => if upper then "0X" else "0x"

def ofVerb? : Char → Option Radix
  | 'v' | 'd' => some .decimal
  | 'b' => some .binary
  | 'o' => some (.octal false)
  | 'O' => some (.octal true)
  | 'x' => some (.hexadecimal false)
  | 'X' => some (.hexadecimal true)
  | _ => none

end Radix

namespace Layout

def leastDigits (l : Layout) (sign : Bytes) : Nat :=
  match l.precision with
  | some n => n
  | none => if l.zero && !l.minus then l.width.getD 0 - sign.length else 0

def integer (l : Layout) (radix : Radix) (n : Int) : Bytes :=
  if n = 0 ∧ l.precision = some 0 then List.replicate (l.width.getD 0) 0x20
  else
    let sign := l.sign (n < 0)
    let digits := radix.digits n.natAbs
    let digits := List.replicate (l.leastDigits sign - digits.length) 0x30 ++ digits
    let digits := if l.sharp then radix.mark digits ++ digits else digits
    let digits := if radix = .octal true then "0o" ++ digits else digits
    l.padSpaces (sign ++ digits)

end Layout

def codePoint (n : Int) : Char :=
  if 0 ≤ n ∧ n ≤ 0x10ffff ∧ ¬(0xd800 ≤ n ∧ n ≤ 0xdfff) then Char.ofNat n.toNat
  else Rune.replacement

def Layout.unicode (l : Layout) (n : Int) : Bytes :=
  let word := (n % 2 ^ 64).toNat
  let digits := Bytes.asciiUpper (Bytes.hexNat (max 4 (l.precision.getD 0)) word)
  let c := codePoint word
  let shown : Bytes :=
    if l.sharp ∧ c.toNat = word ∧ Text.isPrintable c then " '" ++ Bytes.ofChar c ++ "'" else []
  l.padSpaces ("U+" ++ digits ++ shown)

def integer? (l : Layout) (verb : Char) (isSigned : Bool) (n : Int) : Option Bytes :=
  match verb with
  | 'c' => some (l.pad (Bytes.ofChar (codePoint n)))
  | 'q' => some (l.pad (Text.quoteChar (if l.plus then .ascii else .printable) (codePoint n)))
  | 'U' => some (l.unicode n)
  | _ =>
    if verb = 'v' ∧ l.source ∧ !isSigned then
      some ({ l with sharp := true }.integer (.hexadecimal false) n)
    else (Radix.ofVerb? verb).map (l.integer · n)

end ScriptHost.Template
