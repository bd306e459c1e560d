import ScriptHost.Host

set_option autoImplicit false

/-!
Writing through the output stack of a context. Text goes to the top buffer; a full, flushed or
closed buffer passes what it holds through its handler to the ones below.
-/

namespace ScriptHost.Output

variable {σ : Type}

def modifyStack (c : ContextId) (f : Output → Output) : Run σ Unit :=
  Run.modifyContext c fun x => { x with output := f x.output }

def bufferOf (c : ContextId) (b : BufferId) : Run σ Buffer :=
  return (← Run.context c).output.buffer b

def modifyBuffer (c : ContextId) (b : BufferId) (f : Buffer → Buffer) : Run σ Unit :=
  modifyStack c (·.modify b f)

def onSink {α : Type} (c : ContextId) (f : Sink → α × Sink) : Run σ α := do
  let id := (← Run.context c).output.sink
  modifyGet fun w =>
    let (result, sink) := f (w.sinks.get id)
    (result, { w with sinks := w.sinks.modify id fun _ => sink })

def callHandler (h : Host σ) (c : ContextId) (b : BufferId) (k : Callback) (chunk : Bytes)
    (mode : OutputMode) : Run σ Bytes := do
  let start := !(← bufferOf c b).isStarted
  modifyBuffer c b fun x => { x with isStarted := true }
  h.filterOutput k c chunk { mode with start }

def emit (h : Host σ) (c : ContextId) (pass : Bytes → Run σ (Nat × Option OutputError))
    (b : BufferId) (mode : OutputMode) : Run σ (Option OutputError) := do
  let buffer ← bufferOf c b
  modifyBuffer c b fun x => { x with held := [] }
  let chunk ← match buffer.handler with
    | none => pure buffer.held
    | some k => callHandler h c b k buffer.held mode
  if chunk.isEmpty then return none
  return (← pass chunk).2

def deliver (h : Host σ) (c : ContextId) :
    List BufferId → Bytes → Run σ (Nat × Option OutputError)
  | [], text => onSink c (·.write text)
  | b :: below, text => do
    modifyBuffer c b fun x => { x with held := x.held ++ text }
    let buffer ← bufferOf c b
    if 0 < buffer.chunkSize ∧ buffer.chunkSize ≤ buffer.held.length then
      return (text.length, ← emit h c (deliver h c below) b {})
    else return (text.length, none)

def writeTo (h : Host σ) (c : ContextId) (level : Level) (text : Bytes) :
    Run σ (Nat × Option OutputError) := do
  deliver h c (route (← Run.context c).output level) text

def write (h : Host σ) (c : ContextId) (text : Bytes) : Run σ (Nat × Option OutputError) := do
  writeTo h c (top (← Run.context c).output) text

def drainBuffer (h : Host σ) (c : ContextId) (b : BufferId) (mode : OutputMode) :
    Run σ (Option OutputError) := do
  emit h c (deliver h c (← bufferOf c b).below) b mode

def flush (h : Host σ) (c : ContextId) : Level → Run σ (Option OutputError)
  | .root => onSink c Sink.flush
  | .buffer b => drainBuffer h c b { flush := true }

def clean (h : Host σ) (c : ContextId) : Level → Run σ (Option OutputError)
  | .root => return some .notErasable
  | .buffer b => do
    let buffer ← bufferOf c b
    if !buffer.isErasable then return some .notErasable
    if let some k := buffer.handler then
      let _ ← callHandler h c b k buffer.held { clean := true }
    modifyBuffer c b fun x => { x with held := [] }
    return none

def close (h : Host σ) (c : ContextId) : Level → Run σ (Option OutputError)
  | .root => do
    if (← Run.context c).output.isRootClosed then return none
    modifyStack c fun o => { o with isRootClosed := true }
    flush h c .root
  | .buffer b => do
    if (← bufferOf c b).isClosed then return none
    modifyBuffer c b fun x => { x with isClosed := true }
    drainBuffer h c b { final := true }

def start (c : ContextId) (handler : Option Callback) (chunkSize : Int) (isErasable : Bool) :
    Run σ BufferId := do
  let b := (← Run.context c).output.buffers.next
  modifyStack c (·.push handler chunkSize isErasable)
  return b

def stop (h : Host σ) (c : ContextId) : Run σ (Option BufferId) := do
  match (← Run.context c).output.stack with
  | [] => return none
  | b :: below =>
    modifyStack c (·.resize below.length)
    let _ ← close h c (.buffer b)
    return some b

/-- Cleans the top buffer and removes it. Tells whether it could. The stack becomes one lower than
it was at first, whatever the handler of the buffer has done to it. -/
def discard (h : Host σ) (c : ContextId) : Run σ Bool := do
  match (← Run.context c).output.stack with
  | [] => return false
  | b :: below =>
    if (← clean h c (.buffer b)).isSome then return false
    modifyBuffer c b fun x => { x with isClosed := true }
    modifyStack c (·.resize below.length)
    return true

def stopAll (h : Host σ) (c : ContextId) : Nat → Run σ Unit
  | 0 => Run.exhausted
  | rounds + 1 => do
    if (← stop h c).isSome then stopAll h c rounds

def flushAll (h : Host σ) (c : ContextId) : Run σ Unit := do
  stopAll h c ((← Run.context c).output.stack.length + 1 + h.patience)
  let _ ← close h c .root

def echoBytes (h : Host σ) (c : ContextId) (text : Bytes) : Run σ Unit := do
  let _ ← write h c text

def echo (h : Host σ) (c : ContextId) (v : Value) : Run σ Unit := do
  echoBytes h c (← Run.textOf v)

end ScriptHost.Output
