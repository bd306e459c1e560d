import ScriptHost.Proofs.Embedder.Code

set_option autoImplicit false

/-!
What can happen in a run: single changes of the world, each with what the library has made sure of
before, and courses of such changes. A course shows what encloses a part of it: operations, frames,
destructors, hooks and loaders of classes, and the making of a context.
-/

namespace ScriptHost

structure Context.Holdings where
  scope : ScopeId
  classes : Table ClassId
  functions : Table FunctionId
  constants : ConstantSet
  modules : Table ModuleId
  moduleIndex : Table ModuleId
  tracker : Tracker

def Context.holdings (x : Context) : Context.Holdings :=
  ⟨x.scope, x.classes, x.functions, x.constants, x.modules, x.moduleIndex, x.tracker⟩

structure Context.Lease where
  scope : ScopeId
  number : Nat
  isClosed : Bool
  globals : TableId
deriving Inhabited

def Context.lease (x : Context) : Context.Lease := ⟨x.scope, x.number, x.isClosed, x.globals⟩

inductive Resolution where
  | ofClass (key : Bytes) (k : ClassId)
  | ofFunction (key : Bytes) (f : FunctionId)
  | ofConstant (name : Bytes) (k : ConstantId)

def Resolution.HoldsIn : Resolution → Context.Holdings → Prop
  | ofClass key k, x => x.classes.get? key = some k
  | ofFunction key f, x => x.functions.get? key = some f
  | ofConstant name k, x => x.constants.find? name = some k

def Resolution.IsDeclaredIn : Resolution → Scope → Prop
  | ofClass key k, s => s.classes.get? key = some k
  | ofFunction key f, s => s.functions.get? key = some f
  | ofConstant name k, s => s.constants.find? name = some k

namespace World

variable {τ σ : Type}

def context (w : World τ) (c : ContextId) : Context := w.contexts.get c

def scopeOf (w : World τ) (c : ContextId) : Scope := w.scopes.get (w.context c).scope

def Resolves (w : World τ) (c : ContextId) (r : Resolution) : Prop :=
  r.HoldsIn (w.context c).holdings

def updateContext (w : World τ) (c : ContextId) (f : Context → Context) : World τ :=
  { w with contexts := w.contexts.modify c f }

def updateScope (w : World τ) (s : ScopeId) (f : Scope → Scope) : World τ :=
  { w with scopes := w.scopes.modify s f }

def markFinalized (w : World τ) (o : ObjectId) : World τ :=
  { w with objects := w.objects.modify o fun x => { x with isFinalized := true } }

def reclaim (w : World τ) (c : ContextId) (handle : Nat) : World τ :=
  w.updateContext c fun x => { x with tracker := x.tracker.reclaim handle }

def destructor? (w : World τ) (o : ObjectId) : Option Callback := do
  let k ← (w.objects.get o).ofClass
  let (_, d) ← w.classes.findDestructor k
  d.invoke

def pushFrame (w : World τ) (c : ContextId) (f : Frame) : World τ :=
  w.updateContext c (·.pushFrame f)

def popFrame (w : World τ) (c : ContextId) : World τ :=
  match (w.context c).calls.pop? with
  | none => w
  | some (_, calls) => w.updateContext c fun x => { x with calls }

def setImporting (w : World τ) (s : ScopeId) (isImporting : Bool) : World τ :=
  w.updateScope s fun x => { x with isImporting }

def conclude (w : World τ) (s : ScopeId) (source : Source) (m : ModuleId) : World τ :=
  (Modules.conclude s source m w).2

def install (w : World τ) (x : Context) : World τ := { w with contexts := w.contexts.add x }

def provide (w : World τ) (s : ScopeId) : World τ :=
  { w with
    tables := (w.tables.add .empty).modify w.tables.next (·.insert "GLOBALS" (.table w.tables.next))
    allocators := w.allocators.modify (w.scopes.get s).ids
      fun _ => (w.allocators.get (w.scopes.get s).ids).acquire.2 }

def newcomer (w : World τ) (s : ScopeId) (sink : SinkId) : Context :=
  Execution.fresh (w.allocators.get (w.scopes.get s).ids).acquire.1 s (w.scopes.get s) sink
    w.tables.next

def enlist (w : World τ) (s : ScopeId) (sink : SinkId) : World τ :=
  (w.provide s).install (w.newcomer s sink)

def shut (w : World τ) (c : ContextId) : World τ :=
  w.updateContext c fun x => { x with isClosed := true }

def close (w : World τ) (c : ContextId) : World τ :=
  { w.shut c with
    allocators := w.allocators.modify (w.scopeOf c).ids (·.release (w.context c).number) }

def recordModule (w : World τ) (c : ContextId) (m : ModuleId) : World τ :=
  w.updateContext c fun x => { x with
    modules := if (w.modules.get m).name.isEmpty then x.modules
      else x.modules.insert (w.modules.get m).name m
    moduleIndex := x.moduleIndex.insert (w.modules.get m).internalName m }

def updateLoaders (w : World τ) (c : ContextId) (f : AutoloadChain → AutoloadChain) : World τ :=
  w.updateContext c fun x => { x with autoload := f x.autoload }

def busy (w : World τ) (c : ContextId) : List Bytes := (w.context c).autoload.busy

def insertClass (w : World τ) (c : ContextId) (k : ClassId) : World τ :=
  w.updateContext c fun x =>
    { x with classes := x.classes.insert (w.classes.get k).lowerName k }

def leaveHook (w : Recorded σ) (c : ContextId) (lower : Bytes) (hook : Callback)
    (outcome : Except Signal (Option Failure)) : Recorded σ :=
  let w := w.note (.answered (.enterClass hook c) outcome)
  match outcome with
  | .ok (some _) => w.updateContext c fun x => { x with classes := x.classes.erase lower }
  | _ => w

def HasHeld (w : Recorded σ) (c : ContextId) (k : ClassId) : Prop :=
  (∃ key, (w.context c).classes.get? key = some k) ∨
    ∃ m ∈ w.embedder.journal, ∃ key, (m.world.context c).classes.get? key = some k

/-- Nothing has changed since the last moment on record. -/
def IsSampled (w : Recorded σ) : Prop :=
  (∀ c, ¬ w.contexts.has c) ∨
    ∃ before m, w.embedder.journal = before ++ [m] ∧ m.running = w.embedder.running ∧
      ∃ own, w.unrecorded = { m.world with embedder := own }

theorem IsSampled.on_record {w : Recorded σ} (sampled : w.IsSampled) :
    (∀ c, ¬ w.contexts.has c) ∨
      ∃ m ∈ w.embedder.journal, ∃ own, w.unrecorded = { m.world with embedder := own } := by
  refine sampled.imp_right fun ⟨before, m, journal, _, same⟩ => ⟨m, ?_, same⟩
  rw [journal]
  exact List.mem_append_right _ List.mem_cons_self

def ActsFor (w : Recorded σ) (making : List ContextId) (c : ContextId) : Prop :=
  c ∈ making ∨ ∃ a, w.embedder.running.head? = some (.act c a)

inductive Supplies (making : List ContextId) (w : Recorded σ) : Pool .tables (Table Value) → Prop
  | same : Supplies making w w.tables
  | added (t : Table Value) : Supplies making w (w.tables.add t)
  | assigned (c : ContextId) (there : w.contexts.has c) (acts : w.ActsFor making c)
      (f : Table Value → Table Value) : Supplies making w (w.tables.modify (w.context c).globals f)
  | asked (t : TableId) (f : Table Value → Table Value)
      (running : w.embedder.running.head? = some (.modifyTable t f)) :
      Supplies making w (w.tables.modify t f)

inductive Renumbers (w : Recorded σ) : Pool .allocators IdAllocator → Prop
  | same : Renumbers w w.allocators
  | added : Renumbers w (w.allocators.add .empty)
  | taken (a : AllocatorId) (running : w.embedder.running.head? = some (.acquire a)) :
      Renumbers w (w.allocators.modify a fun _ => (w.allocators.get a).acquire.2)
  | given (a : AllocatorId) (id : Nat)
      (running : w.embedder.running.head? = some (.release a id)) :
      Renumbers w (w.allocators.modify a (·.release id))

inductive Entrance (making : List ContextId) (w : Recorded σ) (c : ContextId) (k : ClassId) : Prop
  | fetched (lower : Bytes) (absent : (w.context c).classes.get? lower = none)
      (shared : (w.scopeOf c).classes.get? lower = some k)
      (isStatic : (w.classes.get k).isStatic)
  | declared
      (absent : (w.context c).classes.get? (withoutSeparator (w.classes.get k).name).lower = none)
      (shared : (w.classes.get k).isStatic → w.scopes.has (w.context c).scope →
        (w.scopeOf c).classes.get? (w.classes.get k).lowerName = some k)
  | takenOver (inside : c ∈ making) (parent : ContextId) (options : ContextOptions)
      (running : w.embedder.running.head? = some (.newChild parent options))
      (held : w.HasHeld parent k) (shared : (w.context c).scope = (w.context parent).scope)

structure IsFirst (w : World τ) (c : ContextId) (handle : Nat) (o : ObjectId) : Prop where
  tracked : (handle, o) ∈ (w.context c).tracker.entries
  pending : (w.objects.get o).isFinalized = false
  least : ∀ e ∈ (w.context c).tracker.entries,
    (w.objects.get e.2).isFinalized = false → handle ≤ e.1

/-- An object is marked because its destructor is about to be called. In a pass its handle has been
given up just before. -/
inductive Retires (w : Recorded σ) (c : ContextId) (o : ObjectId) : Recorded σ → Prop
  | asked (running : w.embedder.running.head? = some (.act c (.destruct (some o)))) :
      Retires w c o (w.markFinalized o)
  | visited (handle : Nat) (found : (w.context c).tracker.object? handle = some o)
      (first : w.IsFirst c handle o) : Retires w c o ((w.markFinalized o).reclaim c handle)

end World

def Call.wanted? : Call → Option (ContextId × Bytes)
  | .autoload _ c name | .callFunction _ c [.text name] => some (c, name)
  | _ => none

namespace Event

def wanted? : Event → Option (ContextId × Bytes)
  | .called call | .answered call _ => call.wanted?
  | .finished .. => none

def loaded : Event → Option (ContextId × Source × ModuleId)
  | .answered (.compile _ c source) (.ok (.ok m))
  | .answered (.undump _ c source _) (.ok (.ok m)) => some (c, source, m)
  | _ => none

def isBreak : Event → Bool
  | .answered (.dump ..) (.error _) | .answered (.saveCached ..) (.error _) => true
  | _ => false

def returned : Event → Option ContextId
  | .finished (.newContext ..) (.ok c) | .finished (.newChild ..) (.ok c) => some c
  | _ => none

def isLoss : Event → Bool
  | .finished (.newContext ..) (.error _) | .finished (.newChild ..) (.error _) => true
  | _ => false

def isPlain : Event → Bool
  | .called (.enterClass ..) | .answered (.enterClass ..) _ | .called (.destroyObject ..)
  | .finished .. => false
  | event => event.loaded.isNone

end Event

def World.IsDue {τ : Type} (w : World τ) (event : Event) : Prop :=
  ∀ c name, event.wanted? = some (c, name) → (w.busy c).head? = some name.lower

def World.HasLoaded {σ : Type} (w : Recorded σ) (s : ScopeId) (m : ModuleId) : Prop :=
  ∃ e ∈ w.embedder.journal, ∃ c source, e.event.loaded = some (c, source, m) ∧
    (e.world.context c).scope = s

def World.HasHandedOut {σ : Type} (w : Recorded σ) (c : ContextId) : Prop :=
  ∃ m ∈ w.embedder.journal, m.event.returned = some c ∨ m.event.isLoss

def World.Concluded {σ : Type} (w : Recorded σ) (s : ScopeId) (source : Source) (m : ModuleId)
    (w' : Recorded σ) : Prop :=
  w' = w.conclude s source m ∨ w' = w ∧ ∃ e ∈ w.embedder.journal, e.event.isBreak

def World.MayRecord {σ : Type} (w : Recorded σ) (c : ContextId) (m : ModuleId) : Prop :=
  w.embedder.running.head? = some (.act c (.registerModule m)) ∨
    w.HasLoaded (w.context c).scope m ∨ ∃ name, (w.scopeOf c).modules.get? name = some m

def Action.movesCalls : Action → Bool
  | pushCall .. | pushMethod .. | popCall => true
  | _ => false

def Action.assigns : Action → Bool
  | setArgument .. => true
  | _ => false

def Module.isGrounded {τ : Type} (m : Module) (w : World τ) : Bool :=
  m.classes.all w.classes.has && m.functions.all w.functions.has && m.constants.all w.constants.has

def Buffer.pristine (x : Buffer) : Buffer :=
  { x with held := [], isStarted := false, isClosed := false }

inductive Output.Becomes (o : Output) : Output → Prop
  | same : Becomes o o
  | started (handler : Option Callback) (chunkSize : Int) (isErasable : Bool) :
      Becomes o (o.push handler chunkSize isErasable)
  | used (b : BufferId) (f : Buffer → Buffer) (closed : ∀ x, x.isClosed → (f x).isClosed)
      (pristine : ∀ x, (f x).pristine = x.pristine) : Becomes o (o.modify b f)
  | resized (count : Nat) : Becomes o (o.resize count)
  | rootClosed : Becomes o { o with isRootClosed := true }

inductive AutoloadChain.Becomes (x : AutoloadChain) : AutoloadChain → Prop
  | same : Becomes x x
  | registered (a : Autoloader) (atFront : Bool) : Becomes x (x.register a atFront)
  | unregistered (key : Bytes) : Becomes x (x.unregister key)
  | fallback (a : Option Autoloader) : Becomes x { x with fallback := a }

def Context.activity (x : Context) : CallStack Activation × Nat := (x.calls, x.nextSerial)

structure Context.Adjusts (x y : Context) : Prop where
  holdings : y.holdings = x.holdings
  lease : y.lease = x.lease
  activity : y.activity = x.activity
  output : x.output.Becomes y.output
  autoload : x.autoload.Becomes y.autoload
  shutdown : x.shutdownFunctions <+: y.shutdownFunctions

theorem Context.Adjusts.calls {x y : Context} (adjusts : x.Adjusts y) : y.calls = x.calls :=
  congrArg Prod.fst adjusts.activity

def Event.isRefusal : Event → Bool
  | .answered (.enterClass ..) (.ok (some _)) => true
  | _ => false

def World.IsUnrefused {σ : Type} (w : Recorded σ) : Prop :=
  ∀ m ∈ w.embedder.journal, m.event.isRefusal = false

def World.Retains {σ : Type} (w : Recorded σ) (k : ClassId) : Prop :=
  w.IsUnrefused ∧ (w.classes.get k).name.head? ≠ some 0x5c

def Activation.outline (a : Activation) : Nat × Frame := (a.serial, { a.frame with args := none })

def FrameOf.called {ν : Type} (f : FrameOf ν) : Bytes :=
  if f.static.isEmpty then f.declaring else f.static

def FrameOf.IsKnown {ν τ : Type} (f : FrameOf ν) (w : World τ) : Prop :=
  ∀ o, f.self = some o → w.objects.has o

def FrameOf.IsUnbound {ν τ : Type} (f : FrameOf ν) (w : World τ) : Prop :=
  ∀ o, f.self = some o → (w.objects.get o).binding = .plain

structure World.Recalls {τ : Type} (w : World τ) (c : ContextId) (stays : ClassId → Prop)
    (a : Activation) : Prop where
  declaring : ∀ k, a.declaringClass = some k → stays k →
    w.Resolves c (.ofClass (withoutSeparator a.frame.declaring).lower k)
  static : ∀ k, a.staticClass = some k → stays k →
    w.Resolves c (.ofClass (withoutSeparator a.frame.called).lower k)
  unbound : a.staticClass.isSome → a.frame.declaring ≠ [] → a.frame.IsUnbound w

def World.IsMindful {σ : Type} (w : Recorded σ) (c : ContextId) : Prop :=
  ∀ a ∈ (w.context c).calls.toList, w.Recalls c w.Retains a

structure World.MayCall {σ : Type} (w : Recorded σ) (making : List ContextId) (c : ContextId)
    (f : Frame) : Prop where
  acts : w.ActsFor making c
  known : f.IsKnown w

/-- A single change, while the contexts in `making` are not finished. -/
inductive Change {σ : Type} (making : List ContextId) : Recorded σ → Recorded σ → Prop
  | surroundings (w : Recorded σ) (tables : Pool .tables (Table Value))
      (allocators : Pool .allocators IdAllocator) (sinks : Pool .sinks Sink)
      (databases : Pool .databases Database) (stores : Pool .stores Store) (files : FileTree)
      (observers : Table Observer) (minted : Nat) (supplies : w.Supplies making tables)
      (renumbers : w.Renumbers allocators) :
      Change making w
        { w with tables, allocators, sinks, databases, stores, files, observers, minted }
  | addClass (w : Recorded σ) (k : Class) : Change making w { w with classes := w.classes.add k }
  | addMethod (w : Recorded σ) (k : ClassId) (m : Method)
      (asked : w.embedder.running.head? = some (.addMethod k m)) :
      Change making w { w with classes := w.classes.modify k (·.addMethod m) }
  | shareClass (w : Recorded σ) (k : ClassId) (s : ScopeId)
      (asked : w.embedder.running.head? = some (.declareClass s k)) :
      Change making w
        { w with classes := w.classes.modify k fun e => { e with isStatic := true } }
  | addFunction (w : Recorded σ) (f : Function) :
      Change making w { w with functions := w.functions.add f }
  | shareFunction (w : Recorded σ) (f : FunctionId) (s : ScopeId)
      (asked : w.embedder.running.head? = some (.declareFunction s f)) :
      Change making w
        { w with functions := w.functions.modify f fun e => { e with isStatic := true } }
  | addConstant (w : Recorded σ) (k : Constant) :
      Change making w { w with constants := w.constants.add k }
  | addModule (w : Recorded σ) (m : Module) (grounded : m.isGrounded w) :
      Change making w { w with modules := w.modules.add m }
  | addObject (w : Recorded σ) (o : Object) :
      Change making w { w with objects := w.objects.add o }
  | markFinalized (w : Recorded σ) (o : ObjectId)
      (cause : w.embedder.running.head? = some (.markFinalized o) ∨ w.destructor? o = none) :
      Change making w (w.markFinalized o)
  | addScope (w : Recorded σ) (s : Scope) (numbered : w.allocators.has s.ids) :
      Change making w { w with scopes := w.scopes.add s.bare }
  | setDefaults (w : Recorded σ) (s : ScopeId) (f : Table Bytes → Table Bytes) :
      Change making w (w.updateScope s fun x => { x with defaults := f x.defaults })
  | declareClass (w : Recorded σ) (s : ScopeId) (k : ClassId) (known : w.classes.has k)
      (isStatic : (w.classes.get k).isStatic) :
      Change making w (w.updateScope s fun x =>
        { x with classes := (Scope.enter x.classes (w.classes.get k).lowerName k).2 })
  | declareFunction (w : Recorded σ) (s : ScopeId) (f : FunctionId) (known : w.functions.has f)
      (isStatic : (w.functions.get f).isStatic) :
      Change making w (w.updateScope s fun x =>
        { x with functions := (Scope.enter x.functions (w.functions.get f).lowerName f).2 })
  | declareConstant (w : Recorded σ) (s : ScopeId) (k : ConstantId) (known : w.constants.has k) :
      Change making w (w.updateScope s fun x =>
        { x with constants := (ConstantRegistry.enterSet x.constants (w.constants.get k) k).2 })
  | adjust (w : Recorded σ) (c : ContextId) (f : Context → Context)
      (adjusts : ∀ x : Context, x.Adjusts (f x)) (acts : w.ActsFor making c) :
      Change making w (w.updateContext c f)
  | close (w : Recorded σ) (c : ContextId) (a : Action) (there : w.contexts.has c)
      (isOpen : (w.context c).isClosed = false)
      (asked : w.embedder.running.head? = some (.act c a)) : Change making w (w.close c)
  | pushCall (w : Recorded σ) (c : ContextId) (f : Frame) (a : Action) (moves : a.movesCalls)
      (asked : w.embedder.running.head? = some (.act c a)) (known : f.IsKnown w) :
      Change making w (w.pushFrame c f)
  | popCall (w : Recorded σ) (c : ContextId) (a : Action) (moves : a.movesCalls)
      (asked : w.embedder.running.head? = some (.act c a)) : Change making w (w.popFrame c)
  | assign (w : Recorded σ) (c : ContextId) (distance : Int) (top : Activation)
      (args : Option (List Value)) (there : (w.context c).calls.peek distance = some top)
      (a : Action) (assigns : a.assigns) (asked : w.embedder.running.head? = some (.act c a)) :
      Change making w (w.updateContext c fun x =>
        { x with calls := x.calls.modifyAt distance ({ · with frame := { top.frame with args } }) })
  | remember (w : Recorded σ) (c : ContextId) (serial : Nat) (f : Activation → Activation)
      (keepsSerial : ∀ a, (f a).serial = a.serial) (keepsFrame : ∀ a, (f a).frame = a.frame)
      (recalls : ∀ a ∈ (w.context c).calls.toList, a.serial = serial →
        w.Recalls c w.Retains a → w.Recalls c w.Retains (f a))
      (acts : w.ActsFor making c) :
      Change making w (w.updateContext c (·.remember serial f))
  | loadClass (w : Recorded σ) (c : ContextId) (k : ClassId) (known : w.classes.has k)
      (entrance : w.Entrance making c k) (hookless : (w.classes.get k).onEnter = none)
      (acts : w.ActsFor making c) :
      Change making w (w.insertClass c k)
  | cacheFunction (w : Recorded σ) (c : ContextId) (lower : Bytes) (f : FunctionId)
      (absent : (w.context c).functions.get? lower = none)
      (shared : (w.scopeOf c).functions.get? lower = some f) (acts : w.ActsFor making c) :
      Change making w (w.updateContext c fun x =>
        { x with functions := x.functions.insert lower f })
  | insertFunction (w : Recorded σ) (c : ContextId) (f : FunctionId) (known : w.functions.has f)
      (absent : (w.context c).functions.get?
        (withoutSeparator (w.functions.get f).name).lower = none)
      (shared : (w.functions.get f).isStatic → w.scopes.has (w.context c).scope →
        (w.scopeOf c).functions.get? (w.functions.get f).lowerName = some f)
      (acts : w.ActsFor making c) :
      Change making w (w.updateContext c fun x =>
        { x with functions := x.functions.insert (w.functions.get f).lowerName f })
  | mergeFunctions (w : Recorded σ) (c : ContextId) (acts : w.ActsFor making c) :
      Change making w (w.updateContext c fun x =>
        { x with functions := (w.scopeOf c).functions.overlay x.functions })
  | cacheConstant (w : Recorded σ) (c : ContextId) (name : Bytes) (k : ConstantId)
      (absent : (w.context c).constants.find? name = none)
      (shared : (w.scopeOf c).constants.find? name = some k) (acts : w.ActsFor making c) :
      Change making w (w.updateContext c fun x =>
        { x with constants := x.constants.add (w.constants.get k) k })
  | insertConstant (w : Recorded σ) (c : ContextId) (k : ConstantId) (known : w.constants.has k)
      (absent : (w.context c).constants.find?
        (withoutSeparator (w.constants.get k).name) = none) (acts : w.ActsFor making c) :
      Change making w (w.updateContext c fun x =>
        { x with constants := x.constants.add (w.constants.get k) k })
  | inherit (w : Recorded σ) (c p : ContextId) (inside : c ∈ making)
      (shared : (w.context c).scope = (w.context p).scope) :
      Change making w (w.updateContext c fun x => { x with
        overrides := x.overrides.overlay (w.context p).overrides
        searchPath := .ofList (w.context p).searchPath.directories
        functions := x.functions.overlay (w.context p).functions
        constants := x.constants.overlay (w.context p).constants
        modules := x.modules.overlay (w.context p).modules
        moduleIndex := x.moduleIndex.overlay (w.context p).moduleIndex })
  | reclaim (w : Recorded σ) (c : ContextId) (handle : Nat)
      (cause : w.embedder.running.head? = some (.act c (.reclaim handle)) ∨
        ∀ o, (w.context c).tracker.object? handle = some o → (w.objects.get o).isFinalized)
      (acts : w.ActsFor making c) : Change making w (w.reclaim c handle)
  | drain (w : Recorded σ) (c : ContextId) (acts : w.ActsFor making c) :
      Change making w (w.updateContext c fun x => { x with tracker := x.tracker.drain })
  | track (w : Recorded σ) (c : ContextId) (o : ObjectId) (known : w.objects.has o)
      (acts : w.ActsFor making c) :
      Change making w (w.updateContext c fun x => { x with tracker := (x.tracker.add o).2 })
  | note (w : Recorded σ) (event : Event) (isPlain : event.isPlain) (due : w.IsDue event) :
      Change making w (w.note event)
  | setOwn (w : Recorded σ) (own : σ) : Change making w (w.setOwn own)

theorem World.Retires.elim {σ : Type} {making : List ContextId} {w v : Recorded σ}
    {c : ContextId} {o : ObjectId} {P : Recorded σ → Prop} (retires : w.Retires c o v)
    (known : w.objects.has o) (acts : w.ActsFor making c) (marked : P (w.markFinalized o))
    (step : ∀ {v : Recorded σ}, Change making (w.markFinalized o) v → P v) : P v := by
  cases retires with
  | asked => exact marked
  | visited handle found =>
    refine step (.reclaim (w.markFinalized o) c handle (.inr fun d there => ?_) acts)
    obtain rfl : o = d := Option.some.inj (found.symm.trans there)
    exact congrArg Object.isFinalized (Pool.get_modify_self w.objects o _ known)

def Event.isEnd : Event → Bool
  | .finished .. => true
  | _ => false

structure World.Answers {τ ι : Type} (w : World τ) (c : ContextId) (resolution : ι → Resolution)
    (stays : ι → Prop) (outcome : Except Signal (Option ι)) : Prop where
  absent : outcome = .ok none → ∀ i, ¬ w.Resolves c (resolution i)
  present : ∀ i, outcome = .ok (some i) → stays i → w.Resolves c (resolution i)
  supplied : ∀ i, outcome = .ok (some i) →
    w.Resolves c (resolution i) ∨ (resolution i).IsDeclaredIn (w.scopeOf c)

structure World.Makes {σ : Type} (w w' : Recorded σ) (c : ContextId) : Prop where
  new : c = w.contexts.next
  there : w'.contexts.has c
  others : ∀ d, w'.contexts.has d → w.contexts.has d ∨ d = c ∨ w'.HasHandedOut d

def Operation.Delivers {σ : Type} (w : Recorded σ) :
    (o : Operation) → Except Signal o.Result → Recorded σ → Prop
  | .newContext .., outcome, w' => ∀ c, outcome = .ok c → w.Makes w' c ∧ w'.IsMindful c
  | .newChild .., outcome, w' => ∀ c, outcome = .ok c → w.Makes w' c
  | .declareClass .., _, w' | .declareFunction .., _, w' =>
    w'.contexts = w.contexts ∧ w'.embedder.journal = w.embedder.journal
  | .act c (.track (some o)), outcome, w' =>
    ∀ handle, outcome = .ok handle →
      handle = 0 ∨ (w.context c).tracker.add o = (handle, (w'.context c).tracker)
  | .act c .finalize, outcome, w' =>
    outcome = .ok () → ∀ o ∈ (w'.context c).tracker.objects, (w'.objects.get o).isFinalized
  | .act c (.findClass name), outcome, w' =>
    w'.Answers c (.ofClass (withoutSeparator name).lower) w'.Retains outcome
  -- With a second separator the autoloaders are asked for another name than the context is.
  | .act c (.fetchClass name), outcome, w' =>
    (withoutSeparator name).head? ≠ some 0x5c →
      w'.Answers c (.ofClass (withoutSeparator name).lower) w'.Retains outcome
  | .act c (.fetchFunction name), outcome, w' =>
    w'.Answers c (.ofFunction (withoutSeparator name).lower) (fun _ => True) outcome
  | .act c (.findConstant name), outcome, w' =>
    w'.Answers c (.ofConstant (withoutSeparator name)) (fun _ => True) outcome
  | .act c (.importSource source), outcome, w' =>
    ∀ m, outcome = .ok (.ok m) → w.contexts.has c ∧ (source.name ≠ [] →
      (w.context c).modules.get? source.name = some m ∨
      (w.scopeOf c).modules.get? source.name = some m ∨
      ∃ e ∈ w'.embedder.journal, e.event.loaded = some (c, source, m) ∧
        (e.world.context c).scope = (w.context c).scope)
  | _, _, _ => True

theorem Operation.Delivers.makes {σ : Type} {w w' : Recorded σ} {o : Operation}
    {outcome : Except Signal o.Result} (delivers : o.Delivers w outcome w') {c : ContextId}
    (returned : (Event.finished o outcome).returned = some c) : w.Makes w' c := by
  unfold Event.returned at returned
  split at returned
  next same => cases same; cases returned; exact (delivers c rfl).1
  next same => cases same; cases returned; exact delivers c rfl
  next => cases returned

def Host.IsScripted {σ : Type} (h : Host (Ledger σ)) : Prop :=
  ∃ (s : Script σ) (depth : Nat), h = s.host depth

theorem Script.host_scripted {σ : Type} (s : Script σ) (depth : Nat) :
    (s.host depth).IsScripted := ⟨s, depth, rfl⟩

structure World.Performs {σ : Type} (w : Recorded σ) (o : Operation)
    (outcome : Except Signal o.Result) (w' : Recorded σ) : Prop where
  sampled : w.IsSampled
  request : ∃ h : Host (Ledger σ), h.IsScripted ∧ o.request h (w.begin o) = (outcome, w')

structure Context.IsFresh {τ : Type} (w : World τ) (x : Context) : Prop where
  scope : w.scopes.has x.scope
  calls : x.calls = .empty
  classes : x.classes = .empty
  functions : x.functions = (w.scopes.get x.scope).functions
  constants : x.constants = (w.scopes.get x.scope).constants
  modules : x.modules = .empty
  moduleIndex : x.moduleIndex = .empty
  tracker : x.tracker = .empty
  output : ∃ sink, x.output = .make sink

theorem World.newcomer_isFresh {τ : Type} (w : World τ) {s : ScopeId} (known : w.scopes.has s)
    (sink : SinkId) : (w.newcomer s sink).IsFresh (w.provide s) :=
  ⟨known, rfl, rfl, rfl, rfl, rfl, rfl, rfl, sink, rfl⟩

/-- Changes one after another, some of them inside a call. -/
inductive Course {σ : Type} : List ContextId → Recorded σ → Recorded σ → Prop
  | still {making : List ContextId} (w : Recorded σ) : Course making w w
  | change {making : List ContextId} {w w' : Recorded σ} (step : Change making w w') :
      Course making w w'
  | trans {making : List ContextId} {u v w : Recorded σ} (first : Course making u v)
      (rest : Course making v w) : Course making u w
  | operation {making : List ContextId} {w w' : Recorded σ} (o : Operation)
      (outcome : Except Signal o.Result) (inner : Course [] (w.begin o) w')
      (delivers : o.Delivers (w.begin o) outcome w') (performs : w.Performs o outcome w') :
      Course making w (w'.finish w.embedder.running o outcome)
  | frame {making : List ContextId} {w w' : Recorded σ} (c : ContextId) (f : Frame)
      (inner : Course making (w.pushFrame c f) w') (calls : w.MayCall making c f) :
      Course making w (w'.popFrame c)
  | autoload {making : List ContextId} {w w' : Recorded σ} (c : ContextId) (key : Bytes)
      (there : w.contexts.has c) (free : key ∉ w.busy c)
      (inner : Course making (w.updateLoaders c (·.enter key)) w') (acts : w.ActsFor making c) :
      Course making w (w'.updateLoaders c (·.leave key))
  | destructor {making : List ContextId} {w v w' : Recorded σ} (c : ContextId) (o : ObjectId)
      (k : Callback) (f : Frame) (pending : (w.objects.get o).isFinalized = false)
      (known : w.objects.has o) (own : w.destructor? o = some k) (retires : w.Retires c o v)
      (inner : Course making ((v.pushFrame c f).note (.called (.destroyObject k c o))) w')
      (calls : w.MayCall making c f) :
      Course making w (w'.popFrame c)
  | hook {making : List ContextId} {w w' : Recorded σ} (c : ContextId) (k : ClassId) (k' : Callback)
      (there : w.contexts.has c) (known : w.classes.has k) (entrance : w.Entrance making c k)
      (own : (w.classes.get k).onEnter = some k') (outcome : Except Signal (Option Failure))
      (inner : Course [] ((w.insertClass c k).note (.called (.enterClass k' c))) w')
      (acts : w.ActsFor making c)
      (handedOut : ∀ d, w'.contexts.has d → w.contexts.has d ∨ w'.HasHandedOut d) :
      Course making w (w'.leaveHook c (w.classes.get k).lowerName k' outcome)
  | registration {making : List ContextId} {w w' : Recorded σ} (c : ContextId) (m : ModuleId)
      (there : w.contexts.has c) (may : w.MayRecord c m) (inner : Course making w w')
      (acts : w.ActsFor making c) : Course making w (w'.recordModule c m)
  | attempt {making : List ContextId} {w w' : Recorded σ} (c : ContextId)
      (there : w.contexts.has c) (free : (w.scopeOf c).isImporting = false)
      (inner : Course making (w.setImporting (w.context c).scope true) w') :
      Course making w (w'.setImporting (w.context c).scope false)
  | loading {making : List ContextId} {w u v w' : Recorded σ} (c : ContextId) (source : Source)
      (there : w.contexts.has c) (free : (w.scopeOf c).isImporting = false)
      (missing : source.name ≠ [] → (w.scopeOf c).modules.get? source.name = none)
      (before : Course making (w.setImporting (w.context c).scope true) u) (event : Event)
      (m : ModuleId) (loaded : event.loaded = some (c, source, m))
      (after : Course making (u.note event) v)
      (ended : v.Concluded (w.context c).scope source m w') :
      Course making w (w'.setImporting (w.context c).scope false)
  | creation {w w' : Recorded σ} (s : ScopeId) (sink : SinkId) (known : w.scopes.has s)
      (asked : w.embedder.running.head?.any Operation.creates)
      (inner : Course [w.contexts.next] (w.enlist s sink) w') : Course [] w w'

end ScriptHost
