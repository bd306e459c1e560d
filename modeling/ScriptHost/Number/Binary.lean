import ScriptHost.Number.Power

set_option autoImplicit false

namespace ScriptHost

structure BinaryFormat where
  fractionBits : Nat
  exponentBits : Nat

inductive BinaryNumber where
  | nan
  | infinite (negative : Bool)
  | finite (negative : Bool) (significand : Nat) (exponent : Int)
deriving DecidableEq, Repr

def roundQuotient (numerator denominator : Nat) : Nat :=
  let quotient := numerator / denominator
  let twice := 2 * (numerator % denominator)
  if twice > denominator ∨ twice = denominator ∧ quotient % 2 = 1 then quotient + 1 else quotient

namespace BinaryFormat

def double : BinaryFormat := ⟨52, 11⟩

def single : BinaryFormat := ⟨23, 8⟩

variable (format : BinaryFormat)

def leastExponent : Int :=
  2 - 2 ^ (format.exponentBits - 1) - format.fractionBits

def infinity : Nat :=
  (2 ^ format.exponentBits - 1) * 2 ^ format.fractionBits

def signBit (negative : Bool) : Nat :=
  if negative then 2 ^ (format.fractionBits + format.exponentBits) else 0

def decode (bits : Nat) : BinaryNumber :=
  let fraction := bits % 2 ^ format.fractionBits
  let exponent := bits / 2 ^ format.fractionBits % 2 ^ format.exponentBits
  let negative := bits / 2 ^ (format.fractionBits + format.exponentBits) % 2 = 1
  if exponent = 2 ^ format.exponentBits - 1 then
    if fraction = 0 then .infinite negative else .nan
  else if exponent = 0 then .finite negative fraction format.leastExponent
  else .finite negative (2 ^ format.fractionBits + fraction) (format.leastExponent + exponent - 1)

def floorLog (numerator denominator : Nat) : Int :=
  let guess : Int := numerator.log2 - denominator.log2
  let reached :=
    if 0 ≤ guess then denominator * 2 ^ guess.toNat ≤ numerator
    else denominator ≤ numerator * 2 ^ (-guess).toNat
  if reached then guess else guess - 1

def round (negative : Bool) (numerator denominator : Nat) : Nat :=
  let magnitude :=
    if numerator = 0 then 0
    else
      let wanted := floorLog numerator denominator - format.fractionBits
      let exponent := max wanted format.leastExponent
      let significand :=
        if 0 ≤ exponent then roundQuotient numerator (denominator * 2 ^ exponent.toNat)
        else roundQuotient (numerator * 2 ^ (-exponent).toNat) denominator
      min ((exponent - format.leastExponent).toNat * 2 ^ format.fractionBits + significand)
        format.infinity
  format.signBit negative + magnitude

def ofDecimal (negative : Bool) (coefficient : Nat) (power : Int) : Nat :=
  let digits : Int := (Nat.toDigits 10 coefficient).length
  if coefficient = 0 ∨ power + digits < -400 then format.signBit negative
  else if 400 < power + digits then format.signBit negative + format.infinity
  else if 0 ≤ power then format.round negative (coefficient * 10 ^ power.toNat) 1
  else format.round negative coefficient (10 ^ (-power).toNat)

def ofDyadic (negative : Bool) (coefficient : Nat) (power : Int) : Nat :=
  let reach := power + coefficient.log2
  if coefficient = 0 ∨ reach < -1200 then format.signBit negative
  else if 1200 < reach then format.signBit negative + format.infinity
  else if 0 ≤ power then format.round negative (coefficient * 2 ^ power.toNat) 1
  else format.round negative coefficient (2 ^ (-power).toNat)

end BinaryFormat

namespace BinaryNumber

def fraction (significand : Nat) (exponent : Int) : Nat × Nat :=
  if 0 ≤ exponent then (significand * 2 ^ exponent.toNat, 1)
  else (significand, 2 ^ (-exponent).toNat)

def truncate? : BinaryNumber → Option Int
  | .finite negative significand exponent =>
    let magnitude : Nat :=
      if 0 ≤ exponent then significand * 2 ^ exponent.toNat
      else significand / 2 ^ (-exponent).toNat
    some (if negative then -(magnitude : Int) else magnitude)
  | _ => none

end BinaryNumber

end ScriptHost
