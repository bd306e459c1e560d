import ScriptHost.Identity
import ScriptHost.Text.Bytes

set_option autoImplicit false

namespace ScriptHost

structure Trace where
  file : Bytes := []
  line : Int := 0
  position : Int := 0
deriving DecidableEq, Repr, Inhabited

namespace Trace

def unknown : Trace := ⟨"Unknown", 0, 0⟩

def isUnknown (t : Trace) : Bool :=
  t = unknown ∨ t.file = [] ∧ t.line = 0

def place (t : Trace) : Bytes :=
  " on line " ++ Bytes.ofInt t.line ++ ", position " ++ Bytes.ofInt t.position

def text (t : Trace) : Bytes :=
  t.file ++ t.place

end Trace

structure FrameOf (ν : Type) where
  trace : Trace := {}
  self : Option ObjectId := none
  args : Option (List ν) := none
  function : Bytes := []
  declaring : Bytes := []
  static : Bytes := []
  isInternal : Bool := false
deriving Inhabited

namespace FrameOf

variable {ν : Type}

def name (f : FrameOf ν) : Bytes :=
  if f.declaring.isEmpty then f.function
  else f.declaring ++ (if f.self.isSome then "->" else "::" : String) ++ f.function

def text (f : FrameOf ν) : Bytes :=
  f.name ++ "() called at [" ++ f.trace.file ++ ":" ++ Bytes.ofInt f.trace.line ++ "]"

def copy (f : FrameOf ν) : FrameOf ν :=
  { f with args := f.args.filter (!·.isEmpty) }

end FrameOf

end ScriptHost
