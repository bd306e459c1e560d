import ScriptHost.Number.Decimal
import ScriptHost.Severity.Basic
import ScriptHost.Trace

set_option autoImplicit false

namespace ScriptHost

inductive IntType where
  | int
  | int32
  | int64
  | uint
  | uint64
deriving DecidableEq, Repr

namespace IntType

def all : List IntType := [.int, .int32, .int64, .uint, .uint64]

def name : IntType → String
  | .int => "int"
  | .int32 => "int32"
  | .int64 => "int64"
  | .uint => "uint"
  | .uint64 => "uint64"

def isSigned : IntType → Bool
  | .int | .int32 | .int64 => true
  | .uint | .uint64 => false

def ofName? (s : String) : Option IntType := all.find? (·.name == s)

theorem ofName?_name (t : IntType) : ofName? t.name = some t := by
  cases t <;> rfl

end IntType

structure FatalOf (ν : Type) where
  severity : Severity
  message : Bytes
  trace : Trace
  frames : List (FrameOf ν)
deriving Inhabited

structure ExceptionOf (ν φ : Type) where
  thrown : Option (ClassId × Bytes)
  message : Bytes
  trace : Trace
  frames : List (FrameOf ν)
  payload : Option ObjectId
  previous : Option φ

inductive Misuse where
  | popOfEmptyStack
  | unknownClass (name : Bytes)
  | stated (text : Bytes)
deriving DecidableEq, Repr

inductive Refusal where
  | noCompiler
  | moduleNotFound
  | alreadyRegistered
  | notErasable
  | notCached
  | corruptEntry
deriving DecidableEq, Repr

mutual

inductive Value where
  | null
  | bool (b : Bool)
  | text (s : Bytes)
  | int (type : IntType) (n : Int)
  | float64 (bits : UInt64)
  | float32 (bits : UInt32)
  | bytes (s : Bytes)
  | list (items : List Value)
  | map (entries : List (Bytes × Value))
  | described (s : Bytes)
  | error (f : Failure)
  | object (id : ObjectId)
  | table (id : TableId)

inductive Failure where
  | fatal (e : FatalOf Value)
  | exception (e : ExceptionOf Value Failure)
  | exit (status : Int) (payload : Value)
  | finally
  | misuse (cause : Misuse)
  | fault
  | refused (reason : Refusal) (text : Bytes)
  | plain (text : Bytes)
  | within (text : Bytes) (cause : Option Failure)

end

instance : Inhabited Value := ⟨.null⟩

instance : Inhabited Failure := ⟨.plain []⟩

abbrev Frame := FrameOf Value

abbrev Fatal := FatalOf Value

abbrev Exception := ExceptionOf Value Failure

namespace Misuse

def message : Misuse → Bytes
  | .popOfEmptyStack => "illegal state: pop on empty call stack"
  | .unknownClass name =>
    "illegal state: cannot find '" ++ name ++ "' in the current environment"
  | .stated text => "illegal state: " ++ text

end Misuse

def reportLine (severity : Severity) (message : Bytes) (trace : Trace) : Bytes :=
  severity.label ++ ": " ++ message ++ " in " ++ trace.text

namespace FatalOf

def text {ν : Type} (e : FatalOf ν) : Bytes := reportLine e.severity e.message e.trace

end FatalOf

namespace ExceptionOf

variable {ν φ : Type}

def className (e : ExceptionOf ν φ) : Bytes :=
  match e.thrown with
  | some (_, name) => name
  | none => "Exception"

def text (e : ExceptionOf ν φ) : Bytes :=
  "Uncaught exception '" ++ e.className ++ "' with message '" ++ e.message ++ "'"

end ExceptionOf

namespace Failure

def message : Failure → Bytes
  | .fatal e => e.text
  | .exception e => e.text
  | .exit status _ => "exit(" ++ Bytes.ofInt status ++ ")"
  | .finally => "finally"
  | .misuse cause => cause.message
  | .fault => "invalid use of a missing object"
  | .refused _ text => text
  | .plain text => text
  | .within text (some cause) => text ++ ": " ++ cause.message
  | .within text none => text ++ ": %!w(<nil>)"

def chain : Failure → List Failure
  | .within text (some cause) => .within text (some cause) :: cause.chain
  | .exception ⟨thrown, message, trace, frames, payload, some previous⟩ =>
    .exception ⟨thrown, message, trace, frames, payload, some previous⟩ :: previous.chain
  | f => [f]

def isMisuse : Failure → Bool
  | .misuse _ => true
  | _ => false

def isFault : Failure → Bool
  | .fault => true
  | _ => false

def isFinally : Failure → Bool
  | .finally => true
  | _ => false

def exit? : Failure → Option (Int × Value)
  | .exit status payload => some (status, payload)
  | _ => none

def fatal? : Failure → Option Fatal
  | .fatal e => some e
  | _ => none

def exception? : Failure → Option Exception
  | .exception e => some e
  | _ => none

def isRecoverable (f : Failure) : Bool :=
  !f.chain.any isMisuse && !f.chain.any isFault

end Failure

namespace Value

mutual

def detail : Value → Bytes
  | .null => "<nil>"
  | .bool b => if b then "true" else "false"
  | .text s => s
  | .int _ n => Bytes.ofInt n
  | .float64 bits => DecimalStyle.detailed.write .double bits.toNat
  | .float32 bits => DecimalStyle.detailed.write .single bits.toNat
  | .bytes s => "[" ++ Bytes.join " " (s.map fun b => Bytes.ofNat b.toNat) ++ "]"
  | .list items => "[" ++ Bytes.join " " (details items) ++ "]"
  | .map entries =>
    let sorted := Bytes.sortBy Prod.fst (entryDetails entries)
    "map[" ++ Bytes.join " " (sorted.map fun e => e.1 ++ 0x3a :: e.2) ++ "]"
  | .described s => s
  | .error f => f.message
  | .object _ => "object"
  | .table _ => "table"

def details : List Value → List Bytes
  | [] => []
  | v :: rest => v.detail :: details rest

def entryDetails : List (Bytes × Value) → List (Bytes × Bytes)
  | [] => []
  | (key, v) :: rest => (key, v.detail) :: entryDetails rest

end

def toText : Value → Bytes
  | .null => []
  | .bool b => if b then "1" else []
  | .bytes s => s
  | .float64 bits => DecimalStyle.script.write .double bits.toNat
  | .float32 bits => DecimalStyle.script.write .single bits.toNat
  | v => v.detail

def isFalse : Value → Bool
  | .bool b => !b
  | _ => false

def exitStatus? : Value → Option Int
  | .int _ n => some (Int.bmod n (2 ^ 64))
  | .float64 bits => some (ofBinary (BinaryFormat.double.decode bits.toNat))
  | .float32 bits => some (ofBinary (BinaryFormat.single.decode bits.toNat))
  | _ => none
where
  ofBinary (x : BinaryNumber) : Int :=
    match x.truncate? with
    | some n => if -2 ^ 63 ≤ n ∧ n < 2 ^ 63 then n else -2 ^ 63
    | none => -2 ^ 63

end Value

end ScriptHost
