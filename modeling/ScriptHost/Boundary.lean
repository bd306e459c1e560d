import ScriptHost.Calls
import ScriptHost.Diagnostics.Routing

set_option autoImplicit false

namespace ScriptHost.Boundary

variable {σ : Type}

def guard (body : Run σ Unit) : Run σ (Option Failure) := fun w =>
  match body w with
  | (.ok (), w) => (.ok none, w)
  | (.error (.failure f), w) =>
    if f.isRecoverable then (.ok (some f), w) else (.error (.failure f), w)
  | (.error signal, w) => (.error signal, w)

def reportUncaught (h : Host σ) (c : ContextId) (f : Failure) : Run σ Unit := do
  match f.chain.findSome? Failure.exception? with
  | some e => Diagnostics.reportFatal h c ⟨.error, f.message, e.trace, e.frames⟩
  | none => Diagnostics.reportFatal h c ⟨.error, f.message, ← Calls.trace c, []⟩

def setExceptionHandler (c : ContextId) (handler : Option Callback) : Run σ Unit :=
  Run.modifyDiagnostics c fun d => { d with exceptionHandler := handler }

/-- Classifies a failure and tells whether it was dealt with. A pending finally block is dropped, an
exit flushes all output and ends the program, a fatal error is reported, and anything but misuse
goes to the exception handler. A failure of that handler is classified in turn, with the handler out
of the way. -/
def classify (h : Host σ) (c : ContextId) : Nat → Failure → Run σ Bool
  | 0, _ => Run.exhausted
  | rounds + 1, f => do
    if f.chain.any Failure.isFinally then return true
    if let some (status, _) := f.chain.findSome? Failure.exit? then
      Output.flushAll h c
      h.exit c status
      return true
    if let some e := f.chain.findSome? Failure.fatal? then
      Diagnostics.reportFatal h c e
      return true
    if f.chain.any Failure.isMisuse then return false
    let raised ← guard (match (← Run.context c).diagnostics.exceptionHandler with
      | some k => h.handleException k c f
      | none => reportUncaught h c f)
    match raised, (← Run.context c).diagnostics.exceptionHandler with
    | none, _ => return true
    | some _, none => return false
    | some f, some saved =>
      setExceptionHandler c none
      Run.ensuring (classify h c rounds f) (setExceptionHandler c (some saved))

def catchUncaught (h : Host σ) (c : ContextId) (f : Failure) : Run σ Bool :=
  classify h c h.patience f

def execute (h : Host σ) (c : ContextId) (body : Run σ Unit) : Run σ (Option Failure) := do
  match ← guard body with
  | none => return none
  | some f => return if ← catchUncaught h c f then none else some f

def catchSignal (h : Host σ) (c : ContextId) (signal : Signal) : Run σ Unit := do
  match signal with
  | .failure f =>
    if f.isRecoverable then
      if ← catchUncaught h c f then return
    throw signal
  | _ => throw signal

def handlingUncaught (h : Host σ) (c : ContextId) (body : Run σ Unit) : Run σ Unit := fun w =>
  match body w with
  | (.ok (), w) => (.ok (), w)
  | (.error signal, w) => catchSignal h c signal w

end ScriptHost.Boundary
