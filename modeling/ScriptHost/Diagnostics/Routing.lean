import ScriptHost.Output.Stack

set_option autoImplicit false

namespace ScriptHost.Diagnostics

variable {σ : Type}

def frameAt (c : ContextId) (trace : Trace) : Run σ Frame := do
  match (← Run.context c).topFrame? with
  | some f => return { f.copy with trace }
  | none => return { trace }

def reportError (h : Host σ) (c : ContextId) (m : Message) : Run σ Unit := do
  match (← Run.context c).diagnostics.report.onError with
  | some k => h.reportError k c m
  | none =>
    Output.echoBytes h c m.line
    Output.echoBytes h c "\n"

def reportFatalLine (h : Host σ) (c : ContextId) (e : Fatal) : Run σ Unit := do
  match (← Run.context c).diagnostics.report.onFatal with
  | some k => h.reportFatal k c e
  | none =>
    Output.echoBytes h c "\n"
    Output.echoBytes h c (e.severity.label ++ ": " ++ e.message)
    if !e.trace.isUnknown then
      Output.echoBytes h c (" in " ++ e.trace.text)

def trigger (h : Host σ) (c : ContextId) (m : Message) : Run σ Unit := do
  Run.modifyDiagnostics c fun d => { d with last := some m }
  let handled ← match (← Run.context c).diagnostics.accepting? m.severity with
    | some handler => h.handleError handler.callback c m
    | none => pure false
  if !handled && (← Run.context c).diagnostics.mask.enables m.severity then
    reportError h c m

def abort (c : ContextId) (e : Fatal) : Run σ Unit := do
  let m : Message := ⟨e.severity, { trace := e.trace }, e.message⟩
  Run.modifyDiagnostics c fun d => { d with last := some m }
  Run.fail (.fatal e)

def raiseText (h : Host σ) (c : ContextId) (severity : Severity) (trace : Trace) (text : Bytes) :
    Run σ Unit := do
  let frame ← frameAt c trace
  let x ← Run.context c
  let offered := severity.isHandleable && (x.diagnostics.accepting? severity).isSome
  if severity.isFatal && !offered then abort c ⟨severity, text, trace, x.snapshot⟩
  else trigger h c ⟨severity, frame, text⟩

def raise (h : Host σ) (c : ContextId) (severity : Severity) (trace : Trace) (template : Bytes)
    (args : List Value) : Run σ Unit := do
  raiseText h c severity trace (← Run.expand template args)

def error (h : Host σ) (c : ContextId) (trace : Trace) (text : Bytes) : Run σ Unit :=
  raiseText h c .error trace text

def warning (h : Host σ) (c : ContextId) (trace : Trace) (text : Bytes) : Run σ Unit :=
  raiseText h c .warning trace text

def notice (h : Host σ) (c : ContextId) (trace : Trace) (text : Bytes) : Run σ Unit :=
  raiseText h c .notice trace text

def traceLines (frames : List Frame) : List Bytes :=
  let innermostFirst := frames.reverse
  let script := innermostFirst.filter (!·.isInternal)
  let numbered (f : Frame) (i : Nat) : Bytes := "\n\t #" ++ Bytes.ofNat i ++ " " ++ f.text
  let marked (f : Frame) : Bytes :=
    "\n\t " ++ (if f.isInternal then "" else "->" : String) ++ " " ++ f.text
  script.zipIdx.map (fun (f, i) => numbered f i) ++ Bytes.ofString "\n" :: innermostFirst.map marked

def reportFatal (h : Host σ) (c : ContextId) (e : Fatal) : Run σ Unit := do
  reportFatalLine h c e
  for line in traceLines e.frames do
    Output.echoBytes h c line

end ScriptHost.Diagnostics
