import ScriptHost.Exceptions
import ScriptHost.Execution
import ScriptHost.LateBinding
import ScriptHost.Proofs.Containers

set_option autoImplicit false

namespace ScriptHost

inductive Action where
  | final
  | close
  | shutdown
  | onShutdown (k : Callback)
  | setGlobal (name : Bytes) (v : Value)
  | static (name : Bytes) (initial : Value)
  | setStatic (name : Bytes) (v : Value)
  | attach (key : Bytes) (v : Value)
  | detach (key : Bytes)
  | runShell (command : Bytes)
  | pushCall (f : Frame)
  | pushMethod (trace : Trace) (self : Option ObjectId) (method : Bytes)
      (args : Option (List Value))
  | popCall
  | setArgument (distance index : Int) (v : Value)
  | staticClass
  | currentClass
  | magicClass (name : Bytes)
  | nearestClass
  | parentClass (trace : Trace)
  | parentOf (trace : Trace) (name : Bytes)
  | raise (severity : Severity) (trace : Trace) (template : Bytes) (args : List Value)
  | trigger (m : Message)
  | setDiagnostics (f : Diagnostics → Diagnostics)
  | throwException (e : Exception)
  | throwNamed (trace : Trace) (name template : Bytes) (args : List Value)
  | throwValue (trace : Trace) (v : Value)
  | die (v : Value)
  | catchUncaught (f : Failure)
  | catchSignal (signal : Signal)
  | track (object : Option ObjectId)
  | create (trace : Trace) (name : Bytes) (args : List Value)
  | destruct (object : Option ObjectId)
  | finalize
  | pending
  | reclaim (handle : Nat)
  | findClass (name : Bytes)
  | fetchClass (name : Bytes)
  | registerClass (k : ClassId)
  | addLoader (a : Autoloader) (atFront : Bool)
  | removeLoader (key : Bytes)
  | setFallback (a : Option Autoloader)
  | fetchFunction (name : Bytes)
  | registerFunction (f : FunctionId)
  | allFunctions
  | findConstant (name : Bytes)
  | fetchConstant (name : Bytes)
  | constantOrName (name : Bytes) (trace : Trace)
  | defineConstant (name : Bytes) (value : Value) (isCaseSensitive : Bool)
  | registerConstant (k : ConstantId)
  | importSource (source : Source)
  | registerModule (m : ModuleId)
  | runModule (m : ModuleId) (table : Option TableId)
  | defineFunction (trace : Trace) (index : Bytes) (number : Int)
  | includeFile (kind : IncludeKind) (path : Bytes) (table : Option TableId) (trace : Trace)
  | echo (v : Value)
  | echoBytes (text : Bytes)
  | write (text : Bytes)
  | writeTo (level : Level) (text : Bytes)
  | startBuffer (handler : Option Callback) (chunkSize : Int) (isErasable : Bool)
  | stopBuffer
  | discardBuffer
  | flush (level : Level)
  | clean (level : Level)
  | closeLevel (level : Level)
  | flushAll
  | setSetting (key : Bytes) (v : Value)
  | restoreSetting (key : Bytes)
  | addSearchPath (directory : Bytes)
  | setSearchPath (directories : List Bytes)

namespace Action

abbrev Result : Action → Type
  | static .. | runShell .. | constantOrName .. | runModule .. | includeFile .. => Value
  | staticClass | currentClass | magicClass .. | nearestClass | parentClass .. | parentOf ..
  | findClass .. | fetchClass .. => Option ClassId
  | catchUncaught .. | addLoader .. | removeLoader .. | defineConstant .. | discardBuffer => Bool
  | track .. | pending => Nat
  | create .. => Option ObjectId
  | fetchFunction .. => Option FunctionId
  | allFunctions => List FunctionId
  | findConstant .. => Option ConstantId
  | fetchConstant .. => Option Value
  | importSource .. => Except ImportError ModuleId
  | defineFunction .. => Except DefineError Unit
  | write .. | writeTo .. => Nat × Option OutputError
  | startBuffer .. => BufferId
  | stopBuffer => Option BufferId
  | flush .. | clean .. | closeLevel .. => Option OutputError
  | setSetting .. => Option Bytes
  | _ => Unit

def perform {τ : Type} (h : Host τ) (c : ContextId) : (a : Action) → Run τ a.Result
  | final => Execution.final h c
  | close => Execution.close c
  | shutdown => Execution.shutdown h c
  | onShutdown k => Execution.onShutdown c k
  | setGlobal name v => Variables.setGlobal c name v
  | static name initial => Variables.static c name initial
  | setStatic name v => Variables.setStatic c name v
  | attach key v => Variables.attach c key v
  | detach key => Variables.detach c key
  | runShell command => Variables.runShell h c command
  | pushCall f => Calls.push c f
  | pushMethod trace self method args => Calls.pushMethod c trace self method args
  | popCall => Calls.pop c
  | setArgument distance index v => Calls.setArgument c distance index v
  | staticClass => LateBinding.staticClass h c
  | currentClass => LateBinding.currentClass h c
  | magicClass name => LateBinding.magicClass h c name
  | nearestClass => LateBinding.nearestClass h c
  | parentClass trace => LateBinding.parentClass h c trace
  | parentOf trace name => LateBinding.parentOf h c trace name
  | raise severity trace template args => Diagnostics.raise h c severity trace template args
  | trigger m => Diagnostics.trigger h c m
  | setDiagnostics f => Run.modifyDiagnostics c f
  | throwException e => Exceptions.throwException c e
  | throwNamed trace name template args => Exceptions.throwNamed h c trace name template args
  | throwValue trace v => Exceptions.throwValue h c trace v
  | die v => Exceptions.die h c v
  | catchUncaught f => Boundary.catchUncaught h c f
  | catchSignal signal => Boundary.catchSignal h c signal
  | track object => Lifecycle.track c object
  | create trace name args => Lifecycle.create h c trace name args
  | destruct object => Lifecycle.destruct h c object
  | finalize => Lifecycle.finalize h c
  | pending => Lifecycle.pending c
  | reclaim handle => Run.modifyTracker c (·.reclaim handle)
  | findClass name => ClassRegistry.find h c name
  | fetchClass name => ClassRegistry.fetch h c name
  | registerClass k => ClassRegistry.register h c k
  | addLoader a atFront => ClassRegistry.addLoader c a atFront
  | removeLoader key => ClassRegistry.removeLoader c key
  | setFallback a => Run.modifyAutoload c fun chain => { chain with fallback := a }
  | fetchFunction name => FunctionRegistry.fetch c name
  | registerFunction f => FunctionRegistry.register h c f
  | allFunctions => FunctionRegistry.all c
  | findConstant name => ConstantRegistry.find c name
  | fetchConstant name => ConstantRegistry.fetch c name
  | constantOrName name trace => ConstantRegistry.fetchOrName h c name trace
  | defineConstant name value isCaseSensitive =>
    ConstantRegistry.define h c name value isCaseSensitive
  | registerConstant k => ConstantRegistry.register h c k
  | importSource source => Modules.importSource h c source
  | registerModule m => Modules.register h c m
  | runModule m table => Modules.run h c m table
  | defineFunction trace index number => Modules.defineFunction h c trace index number
  | includeFile kind path table trace => Include.run h c kind path table trace
  | echo v => Output.echo h c v
  | echoBytes text => Output.echoBytes h c text
  | write text => Output.write h c text
  | writeTo level text => Output.writeTo h c level text
  | startBuffer handler chunkSize isErasable => Output.start c handler chunkSize isErasable
  | stopBuffer => Output.stop h c
  | discardBuffer => Output.discard h c
  | flush level => Output.flush h c level
  | clean level => Output.clean h c level
  | closeLevel level => Output.close h c level
  | flushAll => Output.flushAll h c
  | setSetting key v => Settings.set h c key v
  | restoreSetting key => Settings.restore h c key
  | addSearchPath directory => Settings.addSearchPath c directory
  | setSearchPath directories => Settings.setSearchPath c directories

def isGrounded {τ : Type} (w : World τ) : Action → Bool
  | pushCall f => f.self.all w.objects.has
  | track object | destruct object => object.all w.objects.has
  | registerClass k => w.classes.has k
  | registerFunction f => w.functions.has f
  | registerConstant k => w.constants.has k
  | registerModule m | runModule m _ => w.modules.has m
  | _ => true

end Action

def Scope.bare (s : Scope) : Scope :=
  { s with
    classes := .empty
    functions := .empty
    constants := .empty
    modules := .empty
    moduleIndex := .empty
    isImporting := false }

inductive Operation where
  | act (c : ContextId) (a : Action)
  | newAllocator
  | acquire (a : AllocatorId)
  | release (a : AllocatorId) (id : Nat)
  | newTable (t : Table Value)
  | modifyTable (t : TableId) (f : Table Value → Table Value)
  | newSink (s : Sink)
  | modifySink (s : SinkId) (f : Sink → Sink)
  | changeFiles (f : FileTree → FileTree)
  | newClass (k : Class)
  | newFunction (f : Function)
  | newConstant (k : Constant)
  | newModule (m : Module)
  | newObject (o : Object)
  | addMethod (k : ClassId) (m : Method)
  | markFinalized (o : ObjectId)
  | newScope (s : Scope)
  | setDefault (s : ScopeId) (key : Bytes) (v : Value)
  | declareClass (s : ScopeId) (k : ClassId)
  | declareFunction (s : ScopeId) (f : FunctionId)
  | declareConstant (s : ScopeId) (k : ConstantId)
  | newContext (s : ScopeId) (sink : SinkId) (options : ContextOptions)
  | newChild (parent : ContextId) (options : ContextOptions)
  | observe (key : Bytes) (k : Option Callback)
  | openStore (name : Bytes) (now : Int64)
  | savePayload (s : StoreId) (name sourceDigest payload : Bytes)
  | saveRow (s : StoreId) (name : Bytes) (row : Row)
  | fetchPayload (s : StoreId) (name sourceDigest : Bytes)
  | deletePayload (s : StoreId) (name : Bytes)
  | purgeStore (s : StoreId)
  | listStore (s : StoreId)
  | closeStore (s : StoreId)

namespace Operation

abbrev Result : Operation → Type
  | act _ a => a.Result
  | newAllocator => AllocatorId
  | acquire _ => Nat
  | newTable _ => TableId
  | newSink _ => SinkId
  | newClass _ => ClassId
  | newFunction _ => FunctionId
  | newConstant _ => ConstantId
  | newModule _ => ModuleId
  | newObject _ => ObjectId
  | newScope _ => ScopeId
  | declareClass .. | declareFunction .. | declareConstant .. => Except AlreadyDeclared Unit
  | newContext .. | newChild .. => ContextId
  | openStore .. => Except OpenError StoreId
  | savePayload .. | saveRow .. | deletePayload .. => Except StoreError Unit
  | fetchPayload .. => Except StoreError (Option Bytes)
  | purgeStore .. => Except StoreError Nat
  | listStore .. => Except StoreError (List StoreEntry)
  | _ => Unit

def perform {τ : Type} (h : Host τ) : (o : Operation) → Run τ o.Result
  | act c a => a.perform h c
  | newAllocator => ScopeRegistry.makeAllocator
  | acquire a => ScopeRegistry.acquire a
  | release a id => ScopeRegistry.release a id
  | newTable t => Run.newTable t
  | modifyTable t f => Variables.modifyTable t f
  | newSink s => modifyGet fun w => (w.sinks.next, { w with sinks := w.sinks.add s })
  | modifySink s f => Run.modifySink s f
  | changeFiles f => modify fun w => { w with files := f w.files }
  | newClass k => Run.newClass k
  | newFunction f => Run.newFunction f
  | newConstant k => Run.newConstant k
  | newModule m => Run.newModule m
  | newObject o => Run.newObject o
  | addMethod k m => Run.addMethod k m
  | markFinalized o => Run.modifyObject o fun x => { x with isFinalized := true }
  | newScope s => ScopeRegistry.make s.bare
  | setDefault s key v => ScopeRegistry.setDefault s key v
  | declareClass s k => ScopeRegistry.declareClass s k
  | declareFunction s f => ScopeRegistry.declareFunction s f
  | declareConstant s k => ScopeRegistry.declareConstant s k
  | newContext s sink options => Execution.create h s sink options
  | newChild parent options => Execution.createChild h parent options
  | observe key k => Settings.observe key k
  | openStore name now => Connection.connect name now
  | savePayload s name sourceDigest payload => Connection.save s name sourceDigest payload
  | saveRow s name row => Connection.saveRow s name row
  | fetchPayload s name sourceDigest => Connection.fetch s name sourceDigest
  | deletePayload s name => Connection.delete s name
  | purgeStore s => Connection.purge s
  | listStore s => Connection.list s
  | closeStore s => Connection.close s

def creates : Operation → Bool
  | newContext .. | newChild .. => true
  | _ => false

def isGrounded {τ : Type} (w : World τ) : Operation → Bool
  | act c a => w.contexts.has c && a.isGrounded w
  | acquire a | release a _ => w.allocators.has a
  | modifyTable t _ => w.tables.has t
  | modifySink s _ => w.sinks.has s
  | newClass k => k.parent.all w.classes.has
  | newModule m =>
    m.classes.all w.classes.has && m.functions.all w.functions.has && m.constants.all w.constants.has
  | newObject o => o.ofClass.all w.classes.has
  | addMethod k _ => w.classes.has k
  | markFinalized o => w.objects.has o
  | newScope s => w.allocators.has s.ids
  | setDefault s _ _ => w.scopes.has s
  | declareClass s k => w.scopes.has s && w.classes.has k
  | declareFunction s f => w.scopes.has s && w.functions.has f
  | declareConstant s k => w.scopes.has s && w.constants.has k
  | newContext s sink _ => w.scopes.has s && w.sinks.has sink
  | newChild parent _ => w.contexts.has parent
  | _ => true

/-- Performs an operation. To name what does not exist is a fault. -/
def request {τ : Type} (h : Host τ) (o : Operation) : Run τ o.Result := fun w =>
  if o.isGrounded w then o.perform h w else (.error (.failure .fault), w)

end Operation

end ScriptHost
