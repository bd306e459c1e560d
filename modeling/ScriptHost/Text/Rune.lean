import ScriptHost.Text.Bytes

set_option autoImplicit false

namespace ScriptHost

inductive Rune where
  | scalar (c : Char)
  | stray (b : UInt8)
deriving DecidableEq, Repr

namespace Rune

def isContinuation (b : UInt8) : Bool :=
  0x80 ≤ b && b ≤ 0xbf

def pair? (a b : UInt8) : Option Char :=
  if 0xc2 ≤ a && a ≤ 0xdf && isContinuation b then
    some (Char.ofNat ((a.toNat - 0xc0) * 64 + (b.toNat - 0x80)))
  else none

def triple? (a b c : UInt8) : Option Char :=
  let low : UInt8 := if a = 0xe0 then 0xa0 else 0x80
  let high : UInt8 := if a = 0xed then 0x9f else 0xbf
  if 0xe0 ≤ a && a ≤ 0xef && low ≤ b && b ≤ high && isContinuation c then
    some (Char.ofNat ((a.toNat - 0xe0) * 4096 + (b.toNat - 0x80) * 64 + (c.toNat - 0x80)))
  else none

def quadruple? (a b c d : UInt8) : Option Char :=
  let low : UInt8 := if a = 0xf0 then 0x90 else 0x80
  let high : UInt8 := if a = 0xf4 then 0x8f else 0xbf
  if 0xf0 ≤ a && a ≤ 0xf4 && low ≤ b && b ≤ high && isContinuation c && isContinuation d then
    some (Char.ofNat ((a.toNat - 0xf0) * 262144 + (b.toNat - 0x80) * 4096
      + (c.toNat - 0x80) * 64 + (d.toNat - 0x80)))
  else none

def encode : Rune → Bytes
  | .scalar c => Bytes.ofChar c
  | .stray b => [b]

def isScalar : Rune → Bool
  | .scalar _ => true
  | .stray _ => false

def replacement : Char := Char.ofNat 0xfffd

def char : Rune → Char
  | .scalar c => c
  | .stray _ => replacement

end Rune

namespace Bytes

def runes : Bytes → List Rune
  | [] => []
  | [a] => if a < 0x80 then [.scalar (Char.ofNat a.toNat)] else [.stray a]
  | a :: b :: s =>
    if a < 0x80 then .scalar (Char.ofNat a.toNat) :: runes (b :: s)
    else match Rune.pair? a b with
      | some c => .scalar c :: runes s
      | none =>
        match s with
        | [] => .stray a :: runes [b]
        | c :: s =>
          match Rune.triple? a b c with
          | some r => .scalar r :: runes s
          | none =>
            match s with
            | [] => .stray a :: runes [b, c]
            | d :: s =>
              match Rune.quadruple? a b c d with
              | some r => .scalar r :: runes s
              | none => .stray a :: runes (b :: c :: d :: s)

def isText (s : Bytes) : Bool :=
  (runes s).all Rune.isScalar

end Bytes

end ScriptHost
