import ScriptHost.Number.Power
import ScriptHost.Severity.Basic
import ScriptHost.Text.Quoted

set_option autoImplicit false

/-!
Mask expressions such as `E_ALL & ~E_NOTICE`. Operands are numbers or names of severities, the
operators `|`, `&` and `^` apply from left to right, and `~` binds to the operand that follows.
An expression is read byte by byte; bytes above 127 are read as Latin-1.
-/

namespace ScriptHost

inductive MaskError where
  | missingOperand
  | unexpectedOperand (byte : UInt8) (position : Nat)
  | unexpectedOperator (byte : UInt8)
  | unknownConstant (word : Bytes)
deriving DecidableEq, Repr

namespace MaskError

def message (expression : Bytes) (e : MaskError) : Bytes :=
  let latin (b : UInt8) : Bytes := Text.quoteChar .printable (Char.ofNat b.toNat)
  "severity mask " ++ Text.quote .printable expression ++ ": " ++
    match e with
    | .missingOperand => "missing operand"
    | .unexpectedOperand b position =>
      "unexpected " ++ latin b ++ " at " ++ Bytes.ofNat position
    | .unexpectedOperator b => "unexpected " ++ latin b
    | .unknownConstant word => "unknown constant " ++ word

end MaskError

namespace Mask

inductive Operator where
  | union
  | inter
  | symmDiff
deriving DecidableEq, Repr

def Operator.ofByte? (b : UInt8) : Option Operator :=
  if b = 0x7c then some .union
  else if b = 0x26 then some .inter
  else if b = 0x5e then some .symmDiff
  else none

def Operator.apply : Operator → Severity → Severity → Severity
  | .union => Severity.union
  | .inter => Severity.inter
  | .symmDiff => Severity.symmDiff

def isBlank (b : UInt8) : Bool :=
  (0x09 ≤ b && b ≤ 0x0d) || b = 0x20 || b = 0x85 || b = 0xa0

def isDigit (b : UInt8) : Bool :=
  0x30 ≤ b && b ≤ 0x39

def isLetter (b : UInt8) : Bool :=
  (0x41 ≤ b && b ≤ 0x5a) || (0x61 ≤ b && b ≤ 0x7a) || b = 0xaa || b = 0xb5 || b = 0xba
    || (0xc0 ≤ b && b != 0xd7 && b != 0xf7)

def isWordByte (b : UInt8) : Bool :=
  isLetter b || isDigit b || b = 0x5f

def numeral? (word : Bytes) : Option Int64 :=
  let value := word.foldl (fun n b => 10 * n + (b.toNat - 0x30)) 0
  if word.all isDigit && value < 2 ^ 63 then some (Int64.ofNat value) else none

def wordValue (word : Bytes) : Except MaskError Severity :=
  match numeral? word with
  | some n => .ok ⟨n⟩
  | none =>
    match Severity.named? word.asciiUpper with
    | some s => .ok s
    | none => .error (.unknownConstant word)

structure Pending where
  left : Option (Severity × Operator)
  complements : Nat
deriving DecidableEq, Repr

def Pending.resolve (p : Pending) (operand : Severity) : Severity :=
  let value := Nat.repeat Severity.complement p.complements operand
  match p.left with
  | none => value
  | some (left, operator) => operator.apply left value

inductive State where
  | operand (pending : Pending)
  | word (pending : Pending) (read : Bytes)
  | operator (value : Severity)
deriving DecidableEq, Repr

def State.start : State := .operand ⟨none, 0⟩

def stepOperator (value : Severity) (b : UInt8) : Except MaskError State :=
  if isBlank b then .ok (.operator value)
  else match Operator.ofByte? b with
    | some operator => .ok (.operand ⟨some (value, operator), 0⟩)
    | none => .error (.unexpectedOperator b)

def step (state : State) (b : UInt8) (position : Nat) : Except MaskError State :=
  match state with
  | .operand p =>
    if isBlank b then .ok (.operand p)
    else if b = 0x7e then .ok (.operand { p with complements := p.complements + 1 })
    else if isWordByte b then .ok (.word p [b])
    else .error (.unexpectedOperand b position)
  | .word p read =>
    if isWordByte b then .ok (.word p (b :: read))
    else do stepOperator (p.resolve (← wordValue read.reverse)) b
  | .operator value => stepOperator value b

def finish : State → Except MaskError Severity
  | .operand _ => .error .missingOperand
  | .word p read => do pure (p.resolve (← wordValue read.reverse))
  | .operator value => .ok value

def run : State → Nat → Bytes → Except MaskError Severity
  | state, _, [] => finish state
  | state, position, b :: rest => do run (← step state b position) (position + 1) rest

def parse (expression : Bytes) : Except MaskError Severity :=
  run .start 0 expression

end Mask

end ScriptHost
