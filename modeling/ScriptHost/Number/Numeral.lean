import ScriptHost.Number.Binary

set_option autoImplicit false

namespace ScriptHost.Numeral

def hexDigit? (c : Char) : Option Nat :=
  if '0' ≤ c ∧ c ≤ '9' then some (c.toNat - '0'.toNat)
  else if 'a' ≤ c ∧ c ≤ 'f' then some (c.toNat - 'a'.toNat + 10)
  else if 'A' ≤ c ∧ c ≤ 'F' then some (c.toNat - 'A'.toNat + 10)
  else none

def value (base : Nat) (digits : List Char) : Nat :=
  digits.foldl (fun n c => base * n + (hexDigit? c).getD 0) 0

def signed (s : List Char) : Bool × List Char :=
  match s with
  | '-' :: rest => (true, rest)
  | '+' :: rest => (false, rest)
  | s => (false, s)

def cut (p : Char → Bool) (s : List Char) : List Char × Option (List Char) :=
  match s.span (!p ·) with
  | (a, []) => (a, none)
  | (a, _ :: b) => (a, some b)

def integer (s : List Char) : Int :=
  let (negative, digits) := signed s
  if negative then -(value 10 digits : Int) else value 10 digits

def parts (mark : Char) (s : List Char) : List Char × Option (List Char) × Option (List Char) :=
  let (mantissa, power) := cut (·.toLower = mark) s
  let (whole, fraction) := cut (· = '.') mantissa
  (whole, fraction, power)

def isDigit (base : Nat) (c : Char) : Bool :=
  (hexDigit? c).any (· < base)

def isGrouped (base : Nat) (s : List Char) : Bool :=
  (('.' :: s).zip (s ++ ['.'])).all fun (a, b) =>
    (b != '_' || isDigit base a) && (a != '_' || isDigit base b)

def digits? (base : Nat) (s : List Char) : Option (List Char) :=
  let digits := s.filter (· ≠ '_')
  if digits.all (isDigit base) then some digits else none

def exponent? (s : List Char) : Option Int :=
  let (negative, s) := signed s
  if s.head?.any (isDigit 10) then
    (digits? 10 s).map fun digits => if negative then -(value 10 digits : Int) else value 10 digits
  else none

def scaled? (base : Nat) (mark : Char) (s : List Char) : Option (Nat × Nat × Option Int) := do
  let (whole, fraction, power) := parts mark s
  let whole ← digits? base whole
  let fraction ← digits? base (fraction.getD [])
  let power ← match power with
    | none => some none
    | some power => (exponent? power).map some
  if whole.isEmpty && fraction.isEmpty then none
  else some (value base (whole ++ fraction), fraction.length, power)

/-- The pattern nearest to a numeral, or that of an infinity or of no number by its name. Behind
`0x` the digits are hexadecimal, and there has to be an exponent, to the base two. Underscores
separate digits, and one may stand behind `0x`. -/
def toBinary? (format : BinaryFormat) (s : List Char) : Option Nat :=
  let (negative, unsigned) := signed s
  let lower := unsigned.map Char.toLower
  if lower = "inf".toList ∨ lower = "infinity".toList then
    some (format.signBit negative + format.infinity)
  else if s.map Char.toLower = "nan".toList then some (format.infinity + 1)
  else
    match lower with
    | '0' :: 'x' :: digits =>
      match scaled? 16 'p' digits with
      | some (coefficient, places, some power) =>
        if isGrouped 16 ('0' :: digits) then
          some (format.ofDyadic negative coefficient (power - 4 * places))
        else none
      | _ => none
    | digits =>
      match scaled? 10 'e' digits with
      | some (coefficient, places, power) =>
        if isGrouped 10 digits then
          some (format.ofDecimal negative coefficient (power.getD 0 - places))
        else none
      | none => none

end ScriptHost.Numeral
