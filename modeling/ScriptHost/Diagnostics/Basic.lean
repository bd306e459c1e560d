import ScriptHost.Value

set_option autoImplicit false

namespace ScriptHost

structure Message where
  severity : Severity
  frame : Frame
  text : Bytes
deriving Inhabited

def Message.line (m : Message) : Bytes :=
  reportLine m.severity m.text m.frame.trace

structure ErrorHandler where
  callback : Callback
  mask : Severity
  hasCode : Bool
deriving DecidableEq, Repr

def ErrorHandler.accepts (h : ErrorHandler) (s : Severity) : Bool :=
  h.hasCode && (h.mask = .silent || h.mask.enables s)

structure ReportHandler where
  onError : Option Callback
  onFatal : Option Callback
deriving DecidableEq, Repr, Inhabited

structure Diagnostics where
  mask : Severity
  silenced : List Severity
  errorHandler : Option ErrorHandler
  replacedHandler : Option ErrorHandler
  exceptionHandler : Option Callback
  report : ReportHandler
  last : Option Message
deriving Inhabited

namespace Diagnostics

def make (mask : Severity) : Diagnostics :=
  ⟨mask, [], none, none, none, ⟨none, none⟩, none⟩

def accepting? (d : Diagnostics) (s : Severity) : Option ErrorHandler :=
  d.errorHandler.filter (·.accepts s)

def setErrorHandler (d : Diagnostics) (handler : Option ErrorHandler) : Diagnostics :=
  { d with errorHandler := handler, replacedHandler := d.errorHandler }

def restoreErrorHandler (d : Diagnostics) : Diagnostics :=
  { d with errorHandler := d.replacedHandler, replacedHandler := none }

def pushSilent (d : Diagnostics) : Diagnostics :=
  { d with silenced := d.mask :: d.silenced, mask := .silent }

def popSilent (d : Diagnostics) : Diagnostics :=
  match d.silenced with
  | [] => d
  | mask :: rest => { d with mask, silenced := rest }

def clearSilent (d : Diagnostics) : Diagnostics :=
  match d.silenced.getLast? with
  | none => d
  | some mask => { d with mask, silenced := [] }

def silentDepth (d : Diagnostics) : Nat := d.silenced.length

end Diagnostics

end ScriptHost
