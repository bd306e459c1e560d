import ScriptHost.Text.Bytes

set_option autoImplicit false

namespace ScriptHost

structure Severity where
  bits : Int64
deriving DecidableEq, Repr, Inhabited

namespace Severity

def error : Severity := ⟨1⟩
def warning : Severity := ⟨2⟩
def parse : Severity := ⟨4⟩
def notice : Severity := ⟨8⟩
def coreError : Severity := ⟨16⟩
def coreWarning : Severity := ⟨32⟩
def compileError : Severity := ⟨64⟩
def compileWarning : Severity := ⟨128⟩
def userError : Severity := ⟨256⟩
def userWarning : Severity := ⟨512⟩
def userNotice : Severity := ⟨1024⟩
def strict : Severity := ⟨2048⟩
def recoverable : Severity := ⟨4096⟩
def deprecated : Severity := ⟨8192⟩
def userDeprecated : Severity := ⟨16384⟩
def all : Severity := ⟨32767⟩

def silent : Severity := ⟨0⟩

def union (a b : Severity) : Severity := ⟨a.bits ||| b.bits⟩

def inter (a b : Severity) : Severity := ⟨a.bits &&& b.bits⟩

def symmDiff (a b : Severity) : Severity := ⟨a.bits ^^^ b.bits⟩

def complement (a : Severity) : Severity := ⟨all.bits &&& ~~~a.bits⟩

def standard : Severity := (notice.union (strict.union deprecated)).complement

def enables (mask category : Severity) : Bool :=
  mask.bits &&& category.bits != 0

def isFatal (s : Severity) : Bool :=
  [error, parse, coreError, compileError, recoverable].contains s

def isHandleable (s : Severity) : Bool :=
  s == recoverable

def names : List (Severity × Bytes) := [
  (error, "E_ERROR"), (warning, "E_WARNING"), (parse, "E_PARSE"), (notice, "E_NOTICE"),
  (coreError, "E_CORE_ERROR"), (coreWarning, "E_CORE_WARNING"),
  (compileError, "E_COMPILE_ERROR"), (compileWarning, "E_COMPILE_WARNING"),
  (userError, "E_USER_ERROR"), (userWarning, "E_USER_WARNING"), (userNotice, "E_USER_NOTICE"),
  (strict, "E_STRICT"), (recoverable, "E_RECOVERABLE_ERROR"), (deprecated, "E_DEPRECATED"),
  (userDeprecated, "E_USER_DEPRECATED"), (all, "E_ALL")]

def name (s : Severity) : Bytes :=
  match names.find? (·.1 == s) with
  | some (_, name) => name
  | none => Bytes.ofInt s.bits.toInt

def named? (name : Bytes) : Option Severity :=
  (names.find? (·.2 == name)).map (·.1)

def label (s : Severity) : Bytes :=
  if [error, coreError, compileError, userError].contains s then "Fatal error"
  else if [warning, coreWarning, compileWarning, userWarning].contains s then "Warning"
  else if s = parse then "Parse error"
  else if [notice, userNotice].contains s then "Notice"
  else if s = strict then "Strict Standards"
  else if s = recoverable then "Catchable fatal error"
  else if [deprecated, userDeprecated].contains s then "Deprecated"
  else "Unknown error"

end Severity

end ScriptHost
