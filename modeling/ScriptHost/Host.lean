import ScriptHost.World

set_option autoImplicit false

/-!
The embedder, as the library sees it: what happens when one of its callbacks is called. Callbacks
may use every operation of the library and may unwind.
-/

namespace ScriptHost

structure Host (σ : Type) where
  patience : Nat
  enterClass : Callback → ContextId → Run σ (Option Failure)
  createObject : Callback → ContextId → ClassId → List Value → Run σ (Option ObjectId)
  destroyObject : Callback → ContextId → ObjectId → Run σ Unit
  callFunction : Callback → ContextId → List Value → Run σ Unit
  runModule : Callback → ContextId → Option TableId → Run σ Value
  handleError : Callback → ContextId → Message → Run σ Bool
  handleException : Callback → ContextId → Failure → Run σ Unit
  reportError : Callback → ContextId → Message → Run σ Unit
  reportFatal : Callback → ContextId → Fatal → Run σ Unit
  autoload : Callback → ContextId → Bytes → Run σ Unit
  filterOutput : Callback → ContextId → Bytes → OutputMode → Run σ Bytes
  settingChanged : Callback → ContextId → Option Bytes → Run σ Unit
  loadExtension : Callback → ContextId → Run σ Unit
  shutDown : Callback → ContextId → Run σ Unit
  runShell : Callback → ContextId → Bytes → Run σ (Except Failure Bytes)
  exit : ContextId → Int → Run σ Unit
  compile : Callback → ContextId → Source → Run σ (Except Failure ModuleId)
  dump : Callback → ModuleId → Run σ (Except Failure Bytes)
  undump : Callback → ContextId → Source → Bytes → Run σ (Except Failure ModuleId)
  fetchCached : Callback → Bytes → Bytes → Run σ (Except Failure (Option Bytes))
  saveCached : Callback → Bytes → Bytes → Bytes → Run σ (Except Failure Unit)

def Host.idle {σ : Type} : Host σ where
  patience := 1024
  enterClass _ _ := return none
  createObject _ _ _ _ := return none
  destroyObject _ _ _ := return
  callFunction _ _ _ := return
  runModule _ _ _ := return .null
  handleError _ _ _ := return false
  handleException _ _ _ := return
  reportError _ _ _ := return
  reportFatal _ _ _ := return
  autoload _ _ _ := return
  filterOutput _ _ chunk _ := return chunk
  settingChanged _ _ _ := return
  loadExtension _ _ := return
  shutDown _ _ := return
  runShell _ _ _ := return .error (.plain "no shell")
  exit _ _ := return
  compile _ _ _ := return .error (.plain "no compiler")
  dump _ _ := return .error (.plain "no compiler")
  undump _ _ _ _ := return .error (.plain "no compiler")
  fetchCached _ _ _ := return .ok none
  saveCached _ _ _ _ := return .ok ()

end ScriptHost
