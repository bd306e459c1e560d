import ScriptHost.Entity

set_option autoImplicit false

namespace ScriptHost

structure ConstantSet where
  exact : Table ConstantId
  folded : Table ConstantId
deriving Inhabited

namespace ConstantSet

def empty : ConstantSet := ⟨.empty, .empty⟩

def find? (s : ConstantSet) (name : Bytes) : Option ConstantId :=
  match s.exact.get? name with
  | some k => some k
  | none => s.folded.get? name.lower

def add (s : ConstantSet) (constant : Constant) (k : ConstantId) : ConstantSet :=
  if constant.isCaseSensitive then { s with exact := s.exact.insert constant.name k }
  else { s with folded := s.folded.insert constant.lowerName k }

def overlay (s other : ConstantSet) : ConstantSet :=
  ⟨s.exact.overlay other.exact, s.folded.overlay other.folded⟩

end ConstantSet

end ScriptHost
