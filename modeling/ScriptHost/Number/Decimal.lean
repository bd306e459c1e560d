import ScriptHost.Number.Binary
import ScriptHost.Text.Bytes

set_option autoImplicit false

namespace ScriptHost

structure Decimal where
  digits : Bytes
  point : Int
deriving DecidableEq, Repr

namespace Decimal

def ofCoefficient (coefficient : Nat) (point : Int) : Decimal :=
  ⟨((Bytes.ofNat coefficient).reverse.dropWhile (· == 0x30)).reverse, point⟩

def digitCount (n : Nat) : Nat :=
  (Nat.toDigits 10 n).length

def magnitude (numerator denominator : Nat) : Int :=
  if denominator ≤ numerator then digitCount (numerator / denominator)
  else 1 - digitCount ((denominator - 1) / numerator)

def scale (numerator denominator : Nat) (power : Int) : Nat × Nat :=
  if 0 ≤ power then (numerator * 10 ^ power.toNat, denominator)
  else (numerator, denominator * 10 ^ (-power).toNat)

def rounded (places numerator denominator : Nat) : Decimal :=
  if numerator = 0 then ⟨[], 0⟩
  else
    let point := magnitude numerator denominator
    let (n, d) := scale numerator denominator (places - point)
    let coefficient := roundQuotient n d
    if coefficient = 10 ^ places then ⟨[0x31], point + 1⟩ else ofCoefficient coefficient point

def neighbours (numerator denominator : Nat) (power : Int) : List Nat :=
  let (n, d) := scale numerator denominator power
  let below := n / d
  if roundQuotient n d = below then [below, below + 1] else [below + 1, below]

def shortest (format : BinaryFormat) (significand : Nat) (exponent : Int) : Decimal :=
  if significand = 0 then ⟨[], 0⟩
  else
    let narrow := significand = 2 ^ format.fractionBits ∧ format.leastExponent < exponent
    let quarter := exponent - 2
    let up := if 0 ≤ quarter then 2 ^ quarter.toNat else 1
    let down := if 0 ≤ quarter then 1 else 2 ^ (-quarter).toNat
    let value := 4 * significand * up
    let least := (4 * significand - if narrow then 1 else 2) * up
    let most := (4 * significand + 2) * up
    let point := magnitude value down
    let readsBack (places : Nat) (coefficient : Nat) : Bool :=
      let (c, d) := scale coefficient 1 (point - places)
      if significand % 2 = 0 then least * d ≤ c * down && c * down ≤ most * d
      else least * d < c * down && c * down < most * d
    let candidates := (List.range' 1 17).flatMap fun (places : Nat) =>
      (neighbours value down (places - point)).map fun coefficient => (places, coefficient)
    match candidates.find? fun (places, coefficient) => readsBack places coefficient with
    | some (places, coefficient) =>
      if coefficient = 10 ^ places then ⟨[0x31], point + 1⟩ else ofCoefficient coefficient point
    | none => rounded 17 value down

def roundedBehindPoint (places numerator denominator : Nat) : Decimal :=
  let coefficient := roundQuotient (numerator * 10 ^ places) denominator
  if coefficient = 0 then ⟨[], 0⟩
  else ofCoefficient coefficient (digitCount coefficient - places)

def firstDigits (n : Nat) (digits : Bytes) : Bytes :=
  digits.take n ++ List.replicate (n - digits.length) 0x30

def fixed (places : Nat) (d : Decimal) : Bytes :=
  let whole := if d.point ≤ 0 then [0x30] else firstDigits d.point.toNat d.digits
  let behind := List.replicate (-d.point).toNat 0x30 ++ d.digits.drop d.point.toNat
  if places = 0 then whole else whole ++ 0x2e :: firstDigits places behind

def plain (d : Decimal) : Bytes :=
  d.fixed (d.digits.length - d.point).toNat

def power (mark : UInt8) (n : Int) : Bytes :=
  let size := Bytes.ofNat n.natAbs
  mark :: (if n < 0 then 0x2d else 0x2b) :: (if size.length < 2 then 0x30 :: size else size)

def scientificTo (places : Nat) (mark : UInt8) (d : Decimal) : Bytes :=
  let lead := firstDigits 1 d.digits
  let behind := if places = 0 then [] else 0x2e :: firstDigits places (d.digits.drop 1)
  lead ++ behind ++ power mark (if d.digits.isEmpty then 0 else d.point - 1)

def scientific (mark : UInt8) (d : Decimal) : Bytes :=
  d.scientificTo (d.digits.length - 1) mark

end Decimal

structure DecimalStyle where
  places : Option Nat
  limit : Nat
  limitByDigits : Bool
  mark : UInt8

namespace DecimalStyle

def significant (places : Nat) (mark : UInt8) : DecimalStyle :=
  ⟨some (max 1 places), max 1 places, true, mark⟩

def script : DecimalStyle := significant 14 0x45

def fewest (mark : UInt8) : DecimalStyle := ⟨none, 6, false, mark⟩

def detailed : DecimalStyle := fewest 0x65

def writtenPlainly (style : DecimalStyle) (d : Decimal) : Bool :=
  let limit : Int :=
    if style.limitByDigits && d.digits.length < style.limit && d.point ≤ d.digits.length then
      d.digits.length
    else style.limit
  decide (-4 ≤ d.point - 1 ∧ d.point - 1 < limit)

def decimal (style : DecimalStyle) (format : BinaryFormat) (significand : Nat) (exponent : Int) :
    Decimal :=
  match style.places with
  | none => Decimal.shortest format significand exponent
  | some places =>
    let (numerator, denominator) := BinaryNumber.fraction significand exponent
    Decimal.rounded places numerator denominator

def magnitude (style : DecimalStyle) (format : BinaryFormat) (significand : Nat) (exponent : Int) :
    Bytes :=
  let d := style.decimal format significand exponent
  if style.writtenPlainly d then d.plain else d.scientific style.mark

def write (style : DecimalStyle) (format : BinaryFormat) (bits : Nat) : Bytes :=
  match format.decode bits with
  | .nan => "NaN"
  | .infinite negative => if negative then "-Inf" else "+Inf"
  | .finite negative significand exponent =>
    (if negative then [0x2d] else []) ++ style.magnitude format significand exponent

end DecimalStyle

end ScriptHost
