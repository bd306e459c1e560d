import ScriptHost.Number.Decimal
import ScriptHost.Template.Layout

set_option autoImplicit false

namespace ScriptHost.Template

inductive RealForm where
  | binary
  | hexadecimal (upper : Bool)
  | scientific (upper : Bool)
  | fixed
  | general (upper : Bool)
deriving DecidableEq, Repr

namespace RealForm

def ofVerb? : Char → Option RealForm
  | 'b' => some .binary
  | 'x' => some (.hexadecimal false)
  | 'X' => some (.hexadecimal true)
  | 'e' => some (.scientific false)
  | 'E' => some (.scientific true)
  | 'f' | 'F' => some .fixed
  | 'v' | 'g' => some (.general false)
  | 'G' => some (.general true)
  | _ => none

def fractionDigits : Nat := 15

def hexFraction (places significand : Nat) (exponent : Int) : Nat × Int :=
  let lead := significand.log2
  let power := exponent + lead
  let scaled := roundQuotient (significand * 16 ^ places) (2 ^ lead)
  if scaled = 2 * 16 ^ places then (0, power + 1) else (scaled - 16 ^ places, power)

def hexMagnitude (precision : Option Nat) (significand : Nat) (exponent : Int) : Bytes :=
  let places := min fractionDigits (precision.getD fractionDigits)
  let (fraction, power) :=
    if significand = 0 then (0, 0) else hexFraction places significand exponent
  let digits := if places = 0 then [] else Bytes.hexNat places fraction
  let digits := match precision with
    | some n => digits ++ List.replicate (n - fractionDigits) 0x30
    | none => (digits.reverse.dropWhile (· == 0x30)).reverse
  (if significand = 0 then "0x0" else "0x1" : String) ++
    (if digits.isEmpty then [] else 0x2e :: digits) ++ Decimal.power 0x70 power

def magnitude (form : RealForm) (format : BinaryFormat) (precision : Option Nat)
    (significand : Nat) (exponent : Int) : Bytes :=
  let mark (upper : Bool) : UInt8 := if upper then 0x45 else 0x65
  let (numerator, denominator) := BinaryNumber.fraction significand exponent
  match form with
  | .binary =>
    Bytes.ofNat significand ++ 0x70 :: (if exponent < 0 then 0x2d else 0x2b) ::
      Bytes.ofNat exponent.natAbs
  | .hexadecimal upper =>
    let s := hexMagnitude precision significand exponent
    if upper then Bytes.asciiUpper s else s
  | .scientific upper =>
    let places := precision.getD 6
    (Decimal.rounded (places + 1) numerator denominator).scientificTo places (mark upper)
  | .fixed =>
    let places := precision.getD 6
    (Decimal.roundedBehindPoint places numerator denominator).fixed places
  | .general upper =>
    let style := match precision with
      | some places => DecimalStyle.significant places (mark upper)
      | none => DecimalStyle.fewest (mark upper)
    style.magnitude format significand exponent

def sharpDigits (form : RealForm) (precision : Option Nat) : Nat :=
  match form with
  | .general _ | .hexadecimal false => precision.getD 6
  | _ => 0

def startsPower (form : RealForm) (b : UInt8) : Bool :=
  match form with
  | .hexadecimal _ => b = 0x70 || b = 0x50
  | _ => b = 0x65 || b = 0x45

def keepPoint (form : RealForm) (precision : Option Nat) (s : Bytes) : Bytes :=
  let (body, tail) := s.span (!form.startsPower ·)
  let digits := body.filter (· ≠ 0x2e)
  let lacksPoint := digits.length = body.length
  let shown := (digits.dropWhile (· == 0x30)).length
  let shown := if lacksPoint ∧ body = [0x30] then shown + 1 else shown
  body ++ (if lacksPoint then [0x2e] else []) ++
    List.replicate (form.sharpDigits precision - shown) 0x30 ++ tail

end RealForm

namespace Layout

def signed (l : Layout) (sign magnitude : Bytes) : Bytes :=
  if l.zero && !l.minus then
    sign ++ List.replicate (l.width.getD 0 - (sign.length + magnitude.length)) 0x30 ++ magnitude
  else l.pad (sign ++ magnitude)

def real? (l : Layout) (verb : Char) (format : BinaryFormat) (bits : Nat) : Option Bytes :=
  (RealForm.ofVerb? verb).map fun form =>
    match format.decode bits with
    | .nan => l.padSpaces (l.sign false ++ "NaN")
    | .infinite negative =>
      let sign := l.sign negative
      l.padSpaces ((if sign.isEmpty then [0x2b] else sign) ++ "Inf")
    | .finite negative significand exponent =>
      let s := form.magnitude format l.precision significand exponent
      let s := if l.sharp ∧ form ≠ .binary then form.keepPoint l.precision s else s
      l.signed (l.sign negative) s

end Layout

end ScriptHost.Template
