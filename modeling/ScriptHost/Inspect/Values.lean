import ScriptHost.Diagnostics.Basic
import ScriptHost.Inspect.Description

set_option autoImplicit false

namespace ScriptHost

open Description

namespace Value

def typed (type : Bytes) (content : Description) : Description :=
  ofFields [field "t" type, field "v" content]

def exactLimit : Nat := 2 ^ 53

mutual

def describe : Value → Description
  | .null => .null
  | .bool b => .flag b
  | .text s => .text s
  | .int type n =>
    if type = .int ∧ n.natAbs ≤ exactLimit then .number n
    else typed type.name (.text (Bytes.ofInt n))
  | .float64 bits => typed "float64" (.text (toText (.float64 bits)))
  | .float32 bits => typed "float32" (.text (toText (.float32 bits)))
  | .bytes s => typed "bytes" (.hex s)
  | .list items => typed "list" (.list (describeAll items))
  | .map entries => typed "map" (.record (describeEntries entries))
  | .described s => typed "stringer" (.text s)
  | .error f => typed "error" (.text f.message)
  | .object id => .entity .objects id
  | .table _ => ofFields [field "t" "locals"]

def describeAll : List Value → List Description
  | [] => []
  | v :: rest => v.describe :: describeAll rest

def describeEntries : List (Bytes × Value) → Fields
  | [] => []
  | (key, v) :: rest => (key, v.describe) :: describeEntries rest

end

end Value

instance : Describe Value := ⟨Value.describe⟩

instance : Describe Frame where
  describe f := ofFields
    [field "str" f.text, field "at" f.trace, field? "obj" f.self, field? "args" f.args,
      field? "static" (if f.static.isEmpty then none else some f.static),
      field? "internal" (if f.isInternal then some true else none)]

instance : Describe Message where
  describe m := ofFields
    [field "sev" m.severity, field "text" m.text, field "debug" m.line, field "frame" m.frame]

def Refusal.name : Refusal → String
  | .noCompiler => "no_compiler"
  | .moduleNotFound => "module_not_found"
  | .alreadyRegistered => "already_registered"
  | .notErasable => "not_erasable"
  | .notCached => "cache_not_found"
  | .corruptEntry => "corrupt"

namespace Failure

def reason? : Failure → Option String
  | .misuse _ => some "illegal_state"
  | .refused reason _ => some reason.name
  | _ => none

def kind (f : Failure) : String :=
  match f with
  | .fatal _ => "fatal"
  | .exception _ => "exception"
  | .exit _ _ => "exit"
  | .finally => "finally"
  | .fault => "runtime"
  | f => (f.chain.findSome? reason?).getD "error"

def fields (f : Failure) : List Fields :=
  let common : List Fields := [field "error" f.kind, field "message" f.message]
  match f with
  | .fatal e => common ++ [field "sev" e.severity, field "at" e.trace, field "frames" e.frames]
  | .exception e => common ++ [field "text" e.message, field "class" (e.thrown.map Prod.fst),
      field "at" e.trace, field "frames" e.frames, field? "payload" e.payload]
  | .exit status payload => common ++ [field "status" status, field "payload" payload]
  | .fault => [field "error" f.kind]
  | _ => common

def describe : Failure → Description
  | .exception ⟨thrown, message, trace, frames, payload, some previous⟩ =>
    ofFields (fields (.exception ⟨thrown, message, trace, frames, payload, some previous⟩)
      ++ [field "previous" previous.describe])
  | f => ofFields f.fields

end Failure

instance : Describe Failure := ⟨Failure.describe⟩

end ScriptHost
