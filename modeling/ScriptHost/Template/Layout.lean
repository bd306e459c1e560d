import ScriptHost.Text.Rune

set_option autoImplicit false

namespace ScriptHost.Template

structure Layout where
  minus : Bool := false
  plus : Bool := false
  sharp : Bool := false
  space : Bool := false
  zero : Bool := false
  named : Bool := false
  source : Bool := false
  width : Option Nat := none
  precision : Option Nat := none
deriving DecidableEq, Repr

namespace Layout

def general (l : Layout) : Layout :=
  { l with source := l.sharp, sharp := false, named := l.plus, plus := false }

def filler (l : Layout) : UInt8 :=
  if l.zero && !l.minus then 0x30 else 0x20

def pad (l : Layout) (s : Bytes) : Bytes :=
  let missing := List.replicate (l.width.getD 0 - s.runes.length) l.filler
  if l.minus then s ++ missing else missing ++ s

def padSpaces (l : Layout) (s : Bytes) : Bytes :=
  { l with zero := false }.pad s

def sign (l : Layout) (negative : Bool) : Bytes :=
  if negative then "-" else if l.plus then "+" else if l.space then " " else []

end Layout

def misfit (verb : Char) (type value : Bytes) : Bytes :=
  "%!" ++ Bytes.ofChar verb ++ "(" ++ type ++ "=" ++ value ++ ")"

end ScriptHost.Template
