import ScriptHost.CallStack
import ScriptHost.Diagnostics.Basic
import ScriptHost.Lifecycle.Tracker
import ScriptHost.Output.Buffer
import ScriptHost.Registry.ConstantSet
import ScriptHost.Settings.SearchPath

set_option autoImplicit false

namespace ScriptHost

structure Activation where
  serial : Nat
  frame : Frame
  declaringClass : Option ClassId := none
  staticClass : Option ClassId := none

inductive Loader where
  | callback (k : Callback)
  | function (f : FunctionId)
  | missing
deriving DecidableEq, Repr

structure Autoloader where
  key : Bytes
  loader : Loader
deriving DecidableEq, Repr

structure AutoloadChain where
  loaders : List Autoloader
  fallback : Option Autoloader
  busy : List Bytes
deriving DecidableEq, Repr, Inhabited

namespace AutoloadChain

def empty : AutoloadChain := ⟨[], none, []⟩

def hasKey (c : AutoloadChain) (key : Bytes) : Bool :=
  c.loaders.any (·.key = key)

def register (c : AutoloadChain) (a : Autoloader) (atFront : Bool) : AutoloadChain :=
  if c.hasKey a.key then c
  else { c with loaders := if atFront then a :: c.loaders else c.loaders ++ [a] }

def unregister (c : AutoloadChain) (key : Bytes) : AutoloadChain :=
  { c with loaders := c.loaders.eraseP (·.key = key) }

def enter (c : AutoloadChain) (key : Bytes) : AutoloadChain :=
  { c with busy := key :: c.busy }

def leave (c : AutoloadChain) (key : Bytes) : AutoloadChain :=
  { c with busy := c.busy.filter (· ≠ key) }

end AutoloadChain

structure Context where
  number : Nat
  scope : ScopeId
  isClosed : Bool
  calls : CallStack Activation
  nextSerial : Nat
  output : Output
  overrides : Table Bytes
  searchPath : SearchPath
  globals : TableId
  statics : Table Value
  classes : Table ClassId
  functions : Table FunctionId
  constants : ConstantSet
  modules : Table ModuleId
  moduleIndex : Table ModuleId
  autoload : AutoloadChain
  diagnostics : Diagnostics
  shell : Option Callback
  shutdownFunctions : List Callback
  attachments : Table Value
  tracker : Tracker
deriving Inhabited

namespace Context

def depth (c : Context) : Nat := c.calls.depth

def topFrame? (c : Context) : Option Frame := c.calls.top.map (·.frame)

def trace (c : Context) : Trace :=
  match c.topFrame? with
  | some f => f.trace
  | none => .unknown

def snapshot (c : Context) : List Frame := c.calls.toList.map (·.frame.copy)

def pushFrame (c : Context) (f : Frame) : Context :=
  { c with
    calls := c.calls.push { serial := c.nextSerial, frame := f }
    nextSerial := c.nextSerial + 1 }

def remember (c : Context) (serial : Nat) (f : Activation → Activation) : Context :=
  { c with calls := c.calls.mapFrames fun a => if a.serial = serial then f a else a }

end Context

end ScriptHost
