import ScriptHost.Table
import ScriptHost.Trace
import ScriptHost.Severity.Basic

set_option autoImplicit false

namespace ScriptHost

inductive Description where
  | null
  | flag (b : Bool)
  | number (n : Int)
  | text (s : Bytes)
  | hex (s : Bytes)
  | list (items : List Description)
  | record (fields : List (Bytes × Description))
  | entity (kind : Kind) (id : Id kind)
deriving Inhabited

class Describe (α : Type) where
  describe : α → Description

export Describe (describe)

namespace Description

variable {α : Type} [Describe α]

abbrev Fields := List (Bytes × Description)

def field (name : Bytes) (a : α) : Fields := [(name, describe a)]

def field? (name : Bytes) (a : Option α) : Fields := a.elim [] (field name)

def ofFields (fields : List Fields) : Description := .record fields.flatten

def add (d : Description) (more : List Fields) : Description :=
  match d with
  | .record fields => ofFields (fields :: more)
  | d => d

end Description

instance : Describe Description := ⟨id⟩

instance : Describe Unit := ⟨fun _ => .null⟩

instance : Describe Bool := ⟨.flag⟩

instance : Describe Int := ⟨.number⟩

instance : Describe Nat := ⟨fun n => .number n⟩

instance : Describe Int64 := ⟨fun n => .number n.toInt⟩

instance : Describe Severity := ⟨fun s => describe s.bits⟩

instance : Describe Bytes := ⟨.text⟩

instance : Describe String := ⟨fun s => .text s⟩

instance {kind : Kind} : Describe (Id kind) := ⟨.entity kind⟩

instance : Describe Trace := ⟨fun t => .list [.text t.file, .number t.line, .number t.position]⟩

section

variable {α β : Type} [Describe α] [Describe β]

instance : Describe (Option α) := ⟨fun a => a.elim .null describe⟩

instance : Describe (List α) := ⟨fun items => .list (items.map describe)⟩

instance : Describe (Table α) :=
  ⟨fun t => .record (t.entries.map fun e => (e.1, describe e.2))⟩

instance : Describe (α × β) := ⟨fun p => .list [describe p.1, describe p.2]⟩

end

end ScriptHost
