import ScriptHost.Identity
import ScriptHost.Text.Bytes

set_option autoImplicit false

namespace ScriptHost

inductive SinkEvent where
  | wrote (s : Bytes)
  | flushed
deriving DecidableEq, Repr

structure Sink where
  discards : Bool := false
  canFlush : Bool := false
  writeError : Option Bytes := none
  flushError : Option Bytes := none
  journal : List SinkEvent := []
deriving DecidableEq, Repr, Inhabited

inductive OutputError where
  | sink (text : Bytes)
  | notErasable
deriving DecidableEq, Repr

def OutputError.message : OutputError → Bytes
  | .sink text => text
  | .notErasable => "output buffer is not erasable"

namespace Sink

def record (s : Sink) (event : SinkEvent) : Sink :=
  if s.discards then s else { s with journal := s.journal ++ [event] }

def write (s : Sink) (text : Bytes) : (Nat × Option OutputError) × Sink :=
  match s.writeError with
  | some error => if s.discards then ((text.length, none), s) else ((0, some (.sink error)), s)
  | none => ((text.length, none), s.record (.wrote text))

def flush (s : Sink) : Option OutputError × Sink :=
  if s.canFlush then (s.flushError.map .sink, s.record .flushed) else (none, s)

def contents (s : Sink) : Bytes :=
  s.journal.flatMap fun
    | .wrote text => text
    | .flushed => []

end Sink

structure OutputMode where
  start : Bool := false
  clean : Bool := false
  flush : Bool := false
  final : Bool := false
deriving DecidableEq, Repr

def OutputMode.toNat (m : OutputMode) : Nat :=
  (if m.start then 1 else 0) + (if m.clean then 2 else 0) + (if m.flush then 4 else 0)
    + (if m.final then 8 else 0)

structure Buffer where
  level : Nat
  chunkSize : Int
  handler : Option Callback
  isErasable : Bool
  below : List BufferId
  held : Bytes := []
  isStarted : Bool := false
  isClosed : Bool := false
deriving DecidableEq, Repr, Inhabited

inductive Level where
  | root
  | buffer (b : BufferId)
deriving DecidableEq, Repr

structure Output where
  sink : SinkId
  isRootClosed : Bool
  buffers : Pool .buffers Buffer
  stack : List BufferId
  vacated : List BufferId
deriving Inhabited

namespace Output

def make (sink : SinkId) : Output := ⟨sink, false, .empty, [], []⟩

def buffer (o : Output) (b : BufferId) : Buffer := o.buffers.get b

def modify (o : Output) (b : BufferId) (f : Buffer → Buffer) : Output :=
  { o with buffers := o.buffers.modify b f }

def route (o : Output) : Level → List BufferId
  | .root => []
  | .buffer b => b :: (o.buffer b).below

def top (o : Output) : Level :=
  match o.stack with
  | [] => .root
  | b :: _ => .buffer b

def push (o : Output) (handler : Option Callback) (chunkSize : Int) (isErasable : Bool) : Output :=
  let b : Buffer := {
    level := o.stack.length + 1
    chunkSize
    handler
    isErasable
    below := o.route o.top }
  { o with
    buffers := o.buffers.add b
    stack := o.buffers.next :: o.stack
    vacated := o.vacated.drop 1 }

def resize (o : Output) (count : Nat) : Output :=
  let surplus := o.stack.length - count
  let lacking := count - o.stack.length
  { o with
    stack := (o.vacated.take lacking).reverse ++ o.stack.drop surplus
    vacated := (o.stack.take surplus).reverse ++ o.vacated.drop lacking }

def levels (o : Output) : List Level := .root :: o.stack.reverse.map .buffer

def view (o : Output) : Level → Buffer
  | .root =>
    { level := 0, chunkSize := 0, handler := none, isErasable := false, below := [],
      isClosed := o.isRootClosed }
  | .buffer b => o.buffer b

end Output

end ScriptHost
