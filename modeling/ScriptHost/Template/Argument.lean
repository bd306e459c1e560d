import ScriptHost.Entity
import ScriptHost.Template.Shape

set_option autoImplicit false

namespace ScriptHost.Template.Shape

def ofInt (n : Int) : Shape := .int "int" true n

def ofText (s : Bytes) : Shape := .text "string" s

def ofTrace (t : Trace) : Shape :=
  .record "env.TraceInfo"
    [("File", ofText t.file), ("Line", ofInt t.line), ("Position", ofInt t.position)]

def missing (type : Bytes) : Shape := .reference type none

def ofCallback (type : Bytes) (k : Option Callback) : Shape :=
  .reference type (k.map fun _ => .record type [])

def distant (type target : Bytes) (isPresent : Bool) : Shape :=
  .reference type (if isPresent then some (.record target []) else none)

def ofClass (k : Class) : Shape :=
  .reference "*env.ClassEntity" (some (.record "env.ClassEntity" [
    ("Name", ofText k.name),
    ("Parent", distant "*env.ClassEntity" "env.ClassEntity" k.parent.isSome),
    ("Static", .bool k.isStatic),
    ("Trace", ofTrace k.trace),
    ("Destructor", distant "*env.MethodEntity" "env.MethodEntity" k.destructor.isSome),
    ("Methods", .map "map[string]*env.MethodEntity"
      ((Bytes.sortBy Prod.fst k.methods.entries).map fun (name, _) =>
        (name, distant "*env.MethodEntity" "env.MethodEntity" true))),
    ("InitContext", ofCallback "func(*env.Context) error" k.onEnter),
    ("Instantiate", ofCallback
      "func(*env.Context, *env.ClassEntity, []interface \x7b\x7d) env.Object" k.create)]))

def ofClass? (k : Option Class) : Shape :=
  k.elim (missing "*env.ClassEntity") ofClass

def anyList : Bytes := "[]interface \x7b\x7d"

def anyMap : Bytes := "map[string]interface \x7b\x7d"

def anyNull : Shape := .null "interface \x7b\x7d"

def plainError (s : Bytes) : Shape :=
  .spoken s (.reference "*errors.errorString" (some (.record "errors.errorString" [("s", ofText s)])))

def wrapError (s : Bytes) (cause : Shape) : Shape :=
  .spoken s (.reference "*fmt.wrapError"
    (some (.record "fmt.wrapError" [("msg", ofText s), ("err", cause)])))

variable (classes : Classes) (object : ObjectId → Shape)

def objectOrNull (o : Option ObjectId) : Shape :=
  o.elim (.null "env.Object") object

mutual

def ofValue : Value → Shape
  | .null => anyNull
  | .bool b => .bool b
  | .text s => ofText s
  | .int type n => .int type.name type.isSigned n
  | .float64 bits => .real "float64" .double bits.toNat
  | .float32 bits => .real "float32" .single bits.toNat
  | .bytes s => .bytes s
  | .list items => .list anyList (some (ofValues items))
  | .map entries => .map anyMap (Bytes.sortBy Prod.fst (ofEntries entries))
  | .described s => .spoken s (.text "main.stringer" s)
  | .error f => ofFailure f
  | .object id => object id
  | .table _ => .map "env.Locals" []

def ofValues : List Value → List Shape
  | [] => []
  | v :: rest => ofValue v :: ofValues rest

def ofEntries : List (Bytes × Value) → List (Bytes × Shape)
  | [] => []
  | (key, v) :: rest => (key, ofValue v) :: ofEntries rest

def ofFrame : FrameOf Value → Shape
  | ⟨trace, self, args, function, declaring, static, isInternal⟩ =>
    .record "env.Frame" [
      ("Trace", ofTrace trace),
      ("Object", objectOrNull object self),
      ("Args", .list anyList (ofArgs args)),
      ("Function", ofText function),
      ("Class", ofText declaring),
      ("StaticClass", ofText static),
      ("Internal", .bool isInternal),
      ("classEntity", missing "*env.ClassEntity"),
      ("staticClassEntity", missing "*env.ClassEntity")]

def ofArgs : Option (List Value) → Option (List Shape)
  | none => none
  | some args => some (ofValues args)

def ofFrames : List (FrameOf Value) → List Shape
  | [] => []
  | f :: rest => ofFrame f :: ofFrames rest

def ofFatal : FatalOf Value → Shape
  | ⟨severity, message, trace, frames⟩ =>
    .record "env.FatalError" [
      ("Severity", .int "env.Severity" true severity.bits.toInt),
      ("Message", ofText message),
      ("Trace", ofTrace trace),
      ("Frames", .list "[]env.Frame" (some (ofFrames frames)))]

def ofException : ExceptionOf Value Failure → Shape
  | ⟨thrown, message, trace, frames, payload, previous⟩ =>
    .record "env.ScriptException" [
      ("Class", ofClass? (thrown.map fun (k, _) => classes.get k)),
      ("Message", ofText message),
      ("Trace", ofTrace trace),
      ("Frames", .list "[]env.Frame" (some (ofFrames frames))),
      ("Payload", objectOrNull object payload),
      ("Previous", ofCause previous)]

def ofCause : Option Failure → Shape
  | none => .null "error"
  | some f => ofFailure f

def ofFailure : Failure → Shape
  | .fatal e => .spoken e.text (.reference "*env.FatalError" (some (ofFatal e)))
  | .exception e => .spoken e.text (.reference "*env.ScriptException" (some (ofException e)))
  | .exit status payload =>
    .spoken (Failure.message (.exit status payload)) (.reference "*env.ExitSignal"
      (some (.record "env.ExitSignal" [("Status", ofInt status), ("Payload", ofValue payload)])))
  | .finally => .spoken "finally" (.record "env.FinallySignal" [])
  | .misuse cause => wrapError cause.message (plainError "illegal state")
  | .fault => plainError (Failure.message .fault)
  | .refused _ s => plainError s
  | .plain s => plainError s
  | .within s cause => wrapError (Failure.message (.within s cause)) (ofCause cause)

end

def ofObject (objects : Pool .objects Object) : Nat → ObjectId → Shape
  | 0, _ => .reference "*env.BaseObject" (some (.record "env.BaseObject" []))
  | depth + 1, id =>
    let x := objects.get id
    let base : Shape := .record "env.BaseObject" [
      ("Class", ofClass? (x.ofClass.map classes.get)),
      ("Props", .map anyMap (Bytes.sortBy Prod.fst
        (ofEntries classes (ofObject objects depth) x.properties.entries))),
      ("finalized", .record "atomic.Bool" [
        ("_", .record "atomic.noCopy" []),
        ("v", .int "uint32" false (if x.isFinalized then 1 else 0))])]
    match x.binding with
    | .plain => .reference "*env.BaseObject" (some base)
    | .closure this =>
      .reference "*env.BoundClosure" (some (.record "env.BoundClosure" [
        ("BaseObject", base), ("This", objectOrNull (ofObject objects depth) this)]))

def among (objects : Pool .objects Object) (v : Value) : Shape :=
  ofValue classes (ofObject classes objects 2) v

end ScriptHost.Template.Shape
