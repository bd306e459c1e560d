import ScriptHost.Proofs.Calls.Slots
import ScriptHost.Proofs.Embedder.Course
import ScriptHost.Proofs.Lifecycle.Tracker

set_option autoImplicit false

namespace ScriptHost

structure Declarations where
  classes : Table ClassId
  functions : Table FunctionId
  constants : ConstantSet

def Scope.declarations (s : Scope) : Declarations := ⟨s.classes, s.functions, s.constants⟩

def Context.declarations (x : Context) : Declarations := ⟨x.classes, x.functions, x.constants⟩

namespace ConstantSet

variable {s : ConstantSet} {name other : Bytes} {b : ConstantId}

theorem find?_add (e : Constant) (k : ConstantId) (found : s.find? name = some b)
    (exact : e.isCaseSensitive → name ≠ e.name)
    (folded : e.isCaseSensitive = false → s.exact.get? name = none → name.lower ≠ e.lowerName) :
    (s.add e k).find? name = some b := by
  unfold add
  split
  next sensitive => simpa [find?, exact sensitive] using found
  next insensitive =>
    unfold find? at found ⊢
    split at found
    next there => simpa [there] using found
    next there => simpa [there, folded (by simpa using insensitive) there] using found

theorem find?_add_self {e : Constant} (k : ConstantId) (absent : s.find? name = none)
    (own : if e.isCaseSensitive then e.name = name else e.lowerName = name.lower) :
    (s.add e k).find? name = some k := by
  unfold find? at absent
  split at absent
  next => cases absent
  next exactly =>
    unfold add
    split at own
    next sensitive => simp [sensitive, own, find?]
    next folded => simp [folded, own, find?, exactly]

theorem apart_of_find? (absent : s.find? other = none) (found : s.find? name = some b) :
    name ≠ other ∧ (s.exact.get? name = none → name.lower ≠ other.lower) := by
  refine ⟨?_, fun exactly same => ?_⟩
  · rintro rfl
    exact nomatch found.symm.trans absent
  · unfold find? at absent found
    rw [exactly] at found
    split at absent
    next => cases absent
    next => exact nomatch found.symm.trans ((congrArg _ same).trans absent)

def Within (s t : ConstantSet) : Prop := ∀ name k, s.find? name = some k → t.find? name = some k

theorem within_enterSet (s : ConstantSet) (e : Constant) (k : ConstantId) :
    s.Within (ConstantRegistry.enterSet s e k).2 := by
  intro name b found
  unfold ConstantRegistry.enterSet
  split
  next => exact found
  next absent =>
    -- whatever has been found under the name stands apart from the one that enters
    obtain ⟨exact, folded⟩ := apart_of_find? absent found
    exact find?_add e k found (fun _ => exact) fun _ => folded

theorem within_enterAll (constant : ConstantId → Constant) (items : List ConstantId)
    (s : ConstantSet) :
    s.Within (items.foldl (fun t k => (ConstantRegistry.enterSet t (constant k) k).2) s) := by
  induction items generalizing s with
  | nil => exact fun _ _ => id
  | cons k rest ih =>
    exact fun name b found => ih _ name b (within_enterSet s (constant k) k name b found)

end ConstantSet

structure Scope.Precedes (s t : Scope) : Prop where
  classes : s.classes.Within t.classes
  functions : s.functions.Within t.functions
  constants : s.constants.Within t.constants

namespace Scope.Precedes

theorem of_same {s t : Scope} (same : t.declarations = s.declarations) : s.Precedes t := by
  obtain ⟨classes, functions, constants⟩ := Declarations.mk.inj same
  exact ⟨.of_eq classes, .of_eq functions, fun _ _ found => constants ▸ found⟩

theorem refl (s : Scope) : s.Precedes s := .of_same rfl

theorem trans {s t u : Scope} (first : s.Precedes t) (rest : t.Precedes u) : s.Precedes u :=
  ⟨first.classes.trans rest.classes, first.functions.trans rest.functions,
    fun name k found => rest.constants name k (first.constants name k found)⟩

theorem publishIn {τ : Type} (s : Scope) (w : World τ) (m : ModuleId) :
    s.Precedes (Modules.publishIn w m s) where
  classes := Scope.within_enterAll (fun k => (w.classes.get k).lowerName) id _ _
  functions := Scope.within_enterAll (fun f => (w.functions.get f).lowerName) id _ _
  constants := ConstantSet.within_enterAll w.constants.get _ _

end Scope.Precedes

structure Output.Precedes (o p : Output) : Prop where
  size : o.buffers.size ≤ p.buffers.size
  closed : ∀ b, (o.buffer b).isClosed → (p.buffer b).isClosed
  pristine : ∀ b, o.buffers.has b → (p.buffer b).pristine = (o.buffer b).pristine
  places : o.stack.length + o.vacated.length ≤ p.stack.length + p.vacated.length

namespace Output.Precedes

theorem refl (o : Output) : o.Precedes o :=
  ⟨Nat.le_refl _, fun _ => id, fun _ _ => rfl, Nat.le_refl _⟩

theorem has {o p : Output} (precedes : o.Precedes p) {b : BufferId} (there : o.buffers.has b) :
    p.buffers.has b :=
  (Pool.has_iff _ _).2 (Nat.lt_of_lt_of_le ((Pool.has_iff _ _).1 there) precedes.size)

theorem trans {o p q : Output} (first : o.Precedes p) (rest : p.Precedes q) : o.Precedes q where
  size := Nat.le_trans first.size rest.size
  closed b there := rest.closed b (first.closed b there)
  pristine b there := (rest.pristine b (first.has there)).trans (first.pristine b there)
  places := Nat.le_trans first.places rest.places

theorem of_becomes {o p : Output} (becomes : o.Becomes p) : o.Precedes p := by
  cases becomes with
  | same => exact .refl o
  | started handler chunkSize isErasable =>
    refine ⟨by simp [Output.push, Pool.add, Pool.size], fun b there => ?_, fun b there => ?_, ?_⟩
    · have known : o.buffers.has b := by
        by_cases known : o.buffers.has b
        · exact known
        · rw [Output.buffer, Pool.get_of_not_has _ known] at there
          cases there
      exact (congrArg Buffer.isClosed (Pool.get_add_of_has _ _ known)).trans there
    · exact congrArg Buffer.pristine (Pool.get_add_of_has _ _ there)
    · simp only [Output.push, List.length_cons, List.length_drop]
      omega
  | used b f closed pristine =>
    refine ⟨Nat.le_of_eq (Pool.size_modify ..).symm, fun d there => ?_,
      fun d _ => o.buffers.modify_keeps b d f Buffer.pristine pristine, Nat.le_refl _⟩
    show ((o.buffers.modify b f).get d).isClosed
    rw [Pool.get_modify]
    split
    next => exact closed _ there
    next => exact there
  | resized count =>
    refine ⟨Nat.le_refl _, fun _ => id, fun _ _ => rfl, ?_⟩
    simp only [Output.resize, List.length_append, List.length_reverse, List.length_take,
      List.length_drop]
    omega
  | rootClosed => exact ⟨Nat.le_refl _, fun _ => id, fun _ _ => rfl, Nat.le_refl _⟩

end Output.Precedes

namespace Activation

variable {a b : Activation}

theorem serial_of_outline (same : a.outline = b.outline) : a.serial = b.serial :=
  congrArg Prod.fst same

theorem self_of_outline (same : a.outline = b.outline) : a.frame.self = b.frame.self :=
  congrArg (·.2.self) same

end Activation

def CallStack.Within (t s : CallStack Activation) : Prop :=
  ∀ b ∈ t.toList, ∃ a ∈ s.toList, a.outline = b.outline

namespace CallStack.Within

variable {s rest : CallStack Activation}

theorem pop? {top : Option Activation} (popped : s.pop? = some (top, rest)) : rest.Within s :=
  fun b there => ⟨b, mem_pop? popped there, rfl⟩

theorem assign {distance : Int} {top : Activation} (args : Option (List Value))
    (there : s.peek distance = some top) :
    (s.modifyAt distance ({ · with frame := { top.frame with args } })).Within s := by
  intro b member
  rcases mem_modifyAt there member with before | rfl
  · exact ⟨b, before, rfl⟩
  · exact ⟨top, mem_peek there, rfl⟩

theorem remember (serial : Nat) {f : Activation → Activation}
    (keepsSerial : ∀ a, (f a).serial = a.serial) (keepsFrame : ∀ a, (f a).frame = a.frame) :
    (s.mapFrames fun a => if a.serial = serial then f a else a).Within s := by
  intro b there
  obtain ⟨a, before, rfl⟩ := mem_mapFrames there
  refine ⟨a, before, ?_⟩
  split
  next => rw [Activation.outline, Activation.outline, keepsSerial, keepsFrame]
  next => rfl

end CallStack.Within

structure Context.Continues (x y : Context) : Prop where
  serial : x.nextSerial ≤ y.nextSerial
  calls : ∀ b ∈ y.calls.toList, b.serial < x.nextSerial →
    ∃ a ∈ x.calls.toList, a.outline = b.outline

namespace Context.Continues

variable {x y z : Context}

theorem of_within (calls : y.calls.Within x.calls) (serial : y.nextSerial = x.nextSerial) :
    x.Continues y :=
  ⟨Nat.le_of_eq serial.symm, fun b there _ => calls b there⟩

theorem of_same (activity : y.activity = x.activity) : x.Continues y := by
  obtain ⟨calls, serial⟩ := Prod.mk.inj activity
  exact .of_within (fun b there => ⟨b, calls ▸ there, rfl⟩) serial

theorem trans (first : x.Continues y) (rest : y.Continues z) : x.Continues z where
  serial := Nat.le_trans first.serial rest.serial
  calls b there old := by
    obtain ⟨a, between, same⟩ := rest.calls b there (Nat.lt_of_lt_of_le old first.serial)
    obtain ⟨d, before, same'⟩ := first.calls a between
      (Activation.serial_of_outline same ▸ old)
    exact ⟨d, before, same'.trans same⟩

theorem pushFrame (x : Context) (f : Frame) : x.Continues (x.pushFrame f) where
  serial := Nat.le_succ _
  calls b there old := by
    rcases CallStack.mem_push there with before | rfl
    · exact ⟨b, before, rfl⟩
    · exact absurd old (Nat.lt_irrefl _)

end Context.Continues

structure Context.Precedes (x y : Context) : Prop where
  scope : y.scope = x.scope
  tracker : x.tracker.Follows y.tracker
  modules : x.modules.KeysIn y.modules
  output : x.output.Precedes y.output
  calls : x.Continues y
  shutdown : x.shutdownFunctions <+: y.shutdownFunctions

namespace Context.Precedes

theorem of_continues {x y : Context} (calls : x.Continues y) (scope : y.scope = x.scope)
    (tracker : y.tracker = x.tracker) (modules : y.modules = x.modules)
    (output : y.output = x.output) (shutdown : y.shutdownFunctions = x.shutdownFunctions) :
    x.Precedes y :=
  ⟨scope, .of_eq tracker, .of_eq modules, output ▸ .refl _, calls, shutdown ▸ List.prefix_rfl⟩

theorem of_same {x y : Context} (activity : y.activity = x.activity) (scope : y.scope = x.scope)
    (tracker : y.tracker = x.tracker) (modules : y.modules = x.modules)
    (output : y.output = x.output) (shutdown : y.shutdownFunctions = x.shutdownFunctions) :
    x.Precedes y :=
  .of_continues (.of_same activity) scope tracker modules output shutdown

theorem refl (x : Context) : x.Precedes x := .of_same rfl rfl rfl rfl rfl rfl

theorem trans {x y z : Context} (first : x.Precedes y) (rest : y.Precedes z) : x.Precedes z where
  scope := rest.scope.trans first.scope
  tracker := first.tracker.trans rest.tracker
  modules := first.modules.trans rest.modules
  output := first.output.trans rest.output
  calls := first.calls.trans rest.calls
  shutdown := first.shutdown.trans rest.shutdown

theorem of_tracker {x : Context} {t : Tracker} (follows : x.tracker.Follows t) :
    x.Precedes { x with tracker := t } :=
  ⟨rfl, follows, .refl _, .refl _, .of_same rfl, List.prefix_rfl⟩

end Context.Precedes

namespace World

variable {τ σ : Type}

def nameModule (w : World τ) (m : ModuleId) (name internalName : Bytes) (minted : Nat) : World τ :=
  { w with
    modules := w.modules.modify m fun x => { x with
      name := if (w.modules.get m).name.isEmpty then name else (w.modules.get m).name
      internalName }
    minted }

theorem name_nameModule (w : World τ) (m d : ModuleId) (name internalName : Bytes) (minted : Nat) :
    ((w.nameModule m name internalName minted).modules.get d).name =
      if m = d ∧ w.modules.has m ∧ (w.modules.get d).name = [] then name
      else (w.modules.get d).name := by
  rw [nameModule, Pool.get_modify]
  by_cases here : m = d ∧ w.modules.has m
  · obtain ⟨rfl, known⟩ := here
    by_cases unnamed : (w.modules.get m).name = []
    · simp [known, unnamed]
    · simp [known, unnamed]
  · rw [if_neg here, if_neg fun all => here ⟨all.1, all.2.1⟩]

theorem conclude_run (w : World τ) (s : ScopeId) (source : Source) (m : ModuleId) :
    ∃ internalName minted, Modules.conclude s source m w = (.ok (),
      (w.nameModule m source.name internalName minted).updateScope s
        (Modules.publishIn (w.nameModule m source.name internalName minted) m)) := by
  have read : Modules.conclude s source m w = ((do
      let internalName ← if (w.modules.get m).internalName.isEmpty then Modules.mint
        else pure (w.modules.get m).internalName
      Modules.modifyModule m fun x => { x with
        name := if (w.modules.get m).name.isEmpty then source.name else (w.modules.get m).name
        internalName }
      let w ← get
      Run.modifyScope s (Modules.publishIn w m) : Run τ Unit) w) := rfl
  rw [read]
  dsimp only
  cases (w.modules.get m).internalName.isEmpty with
  | true => exact ⟨_, _, rfl⟩
  | false => exact ⟨_, _, rfl⟩

theorem conclude_apply (w : World τ) (s : ScopeId) (source : Source) (m : ModuleId) :
    Modules.conclude s source m w = (.ok (), w.conclude s source m) := by
  obtain ⟨_, _, same⟩ := w.conclude_run s source m
  rw [World.conclude, same]

theorem conclude_eq (w : World τ) (s : ScopeId) (source : Source) (m : ModuleId) :
    ∃ internalName minted, w.conclude s source m =
      (w.nameModule m source.name internalName minted).updateScope s
        (Modules.publishIn (w.nameModule m source.name internalName minted) m) := by
  obtain ⟨internalName, minted, same⟩ := w.conclude_run s source m
  exact ⟨internalName, minted, congrArg Prod.snd same⟩

theorem conclude_same (w : World τ) (s : ScopeId) (source : Source) (m : ModuleId) :
    ∃ modules minted scopes,
      w.conclude s source m = { w with modules, minted, scopes } := by
  obtain ⟨_, _, same⟩ := w.conclude_eq s source m
  exact ⟨_, _, _, same⟩

theorem conclude_embedder (w : World τ) (s : ScopeId) (source : Source) (m : ModuleId) :
    (w.conclude s source m).embedder = w.embedder := by
  obtain ⟨_, _, _, same⟩ := w.conclude_same s source m
  rw [same]

theorem conclude_contexts (w : World τ) (s : ScopeId) (source : Source) (m : ModuleId) :
    (w.conclude s source m).contexts = w.contexts := by
  obtain ⟨_, _, _, same⟩ := w.conclude_same s source m
  rw [same]

theorem name_conclude (w : World τ) (s : ScopeId) (source : Source) (m d : ModuleId) :
    ((w.conclude s source m).modules.get d).name =
      if m = d ∧ w.modules.has m ∧ (w.modules.get d).name = [] then source.name
      else (w.modules.get d).name := by
  obtain ⟨internalName, minted, same⟩ := w.conclude_eq s source m
  rw [same]
  exact w.name_nameModule m d source.name internalName minted

structure Extends (w w' : World τ) : Prop where
  classes : ∀ k, w.classes.has k → w'.classes.has k ∧
    (w'.classes.get k).name = (w.classes.get k).name ∧
    (w'.classes.get k).onEnter = (w.classes.get k).onEnter
  functions : ∀ f, w.functions.has f → w'.functions.has f ∧
    (w'.functions.get f).name = (w.functions.get f).name
  constants : ∀ k, w.constants.has k → w'.constants.has k ∧
    w'.constants.get k = w.constants.get k
  modules : ∀ m, w.modules.has m → w'.modules.has m ∧
    ((w.modules.get m).name ≠ [] → (w'.modules.get m).name = (w.modules.get m).name)
  scopes : ∀ s, w.scopes.has s → w'.scopes.has s ∧
    (w.scopes.get s).Precedes (w'.scopes.get s)
  objects : ∀ o, w.objects.has o → w'.objects.has o ∧
    ((w.objects.get o).isFinalized → (w'.objects.get o).isFinalized) ∧
    (w'.objects.get o).binding = (w.objects.get o).binding
  contexts : ∀ c, w.contexts.has c → w'.contexts.has c ∧
    (w.context c).Precedes (w'.context c)

namespace Extends

theorem refl (w : World τ) : w.Extends w where
  classes _ known := ⟨known, rfl, rfl⟩
  functions _ known := ⟨known, rfl⟩
  constants _ known := ⟨known, rfl⟩
  modules _ known := ⟨known, fun _ => rfl⟩
  scopes _ known := ⟨known, .refl _⟩
  objects _ known := ⟨known, id, rfl⟩
  contexts _ known := ⟨known, .refl _⟩

theorem trans {u v w : World τ} (first : u.Extends v) (rest : v.Extends w) : u.Extends w where
  classes k known := by
    obtain ⟨there, name, hook⟩ := first.classes k known
    obtain ⟨later, name', hook'⟩ := rest.classes k there
    exact ⟨later, name'.trans name, hook'.trans hook⟩
  functions f known := by
    obtain ⟨there, name⟩ := first.functions f known
    obtain ⟨later, name'⟩ := rest.functions f there
    exact ⟨later, name'.trans name⟩
  constants k known := by
    obtain ⟨there, same⟩ := first.constants k known
    obtain ⟨later, same'⟩ := rest.constants k there
    exact ⟨later, same'.trans same⟩
  modules m known := by
    -- a module may get a name on the way, but one that it has stays
    obtain ⟨there, name⟩ := first.modules m known
    obtain ⟨later, name'⟩ := rest.modules m there
    exact ⟨later, fun named => (name' (name named ▸ named)).trans (name named)⟩
  scopes s known := by
    obtain ⟨there, precedes⟩ := first.scopes s known
    obtain ⟨later, precedes'⟩ := rest.scopes s there
    exact ⟨later, precedes.trans precedes'⟩
  objects o known := by
    obtain ⟨there, keeps, binding⟩ := first.objects o known
    obtain ⟨later, keeps', binding'⟩ := rest.objects o there
    exact ⟨later, keeps' ∘ keeps, binding'.trans binding⟩
  contexts c known := by
    obtain ⟨there, precedes⟩ := first.contexts c known
    obtain ⟨later, precedes'⟩ := rest.contexts c there
    exact ⟨later, precedes.trans precedes'⟩

theorem alive {w w' : World τ} (later : w.Extends w') {o : ObjectId}
    (alive : (w'.objects.get o).isFinalized = false) : (w.objects.get o).isFinalized = false := by
  by_cases known : w.objects.has o
  · cases finalized : (w.objects.get o).isFinalized with
    | false => rfl
    | true => exact nomatch ((later.objects o known).2.1 finalized).symm.trans alive
  · rw [Pool.get_of_not_has _ known]
    rfl

theorem finalized {w w' : World τ} (later : w.Extends w') (o : ObjectId)
    (finalized : (w.objects.get o).isFinalized) : (w'.objects.get o).isFinalized := by
  cases alive : (w'.objects.get o).isFinalized with
  | true => rfl
  | false => exact nomatch finalized.symm.trans (later.alive alive)

theorem all_has {w w' : World τ} (later : w.Extends w') {cs : List ContextId}
    (known : ∀ c ∈ cs, w.contexts.has c) : ∀ c ∈ cs, w'.contexts.has c :=
  fun c member => (later.contexts c (known c member)).1

theorem precedes {w w' : World τ} (later : w.Extends w') (s : ScopeId) :
    (w.scopes.get s).Precedes (w'.scopes.get s) := by
  by_cases known : w.scopes.has s
  · exact (later.scopes s known).2
  · rw [Pool.get_of_not_has _ known]
    exact ⟨nofun, nofun, fun _ _ => nofun⟩

theorem scopeOf {w w' : World τ} (later : w.Extends w') {c : ContextId} (there : w.contexts.has c) :
    (w.scopeOf c).Precedes (w'.scopeOf c) := by
  rw [World.scopeOf, World.scopeOf, (later.contexts c there).2.1]
  exact later.precedes _

theorem of_same {w w' : World τ} (classes : w'.classes = w.classes)
    (functions : w'.functions = w.functions) (constants : w'.constants = w.constants)
    (modules : w'.modules = w.modules) (scopes : w'.scopes = w.scopes)
    (objects : w'.objects = w.objects) (contexts : w'.contexts = w.contexts) : w.Extends w' := by
  cases w
  cases w'
  cases classes; cases functions; cases constants; cases modules; cases scopes; cases objects
  cases contexts
  exact ⟨(refl _).classes, (refl _).functions, (refl _).constants, (refl _).modules,
    (refl _).scopes, (refl _).objects, (refl _).contexts⟩

theorem updateScope (w : World τ) (s : ScopeId) (f : Scope → Scope)
    (precedes : ∀ x : Scope, x.Precedes (f x)) : w.Extends (w.updateScope s f) :=
  { refl w with
    scopes := fun t known => by
      refine ⟨(w.scopes.has_modify s t f).trans known, ?_⟩
      show (w.scopes.get t).Precedes ((w.scopes.modify s f).get t)
      rw [Pool.get_modify]
      split
      next => exact precedes _
      next => exact .refl _ }

theorem updateContext (w : World τ) (c : ContextId) (f : Context → Context)
    (precedes : (w.context c).Precedes (f (w.context c))) : w.Extends (w.updateContext c f) :=
  { refl w with
    contexts := fun d known => by
      refine ⟨(w.contexts.has_modify c d f).trans known, ?_⟩
      show (w.contexts.get d).Precedes ((w.contexts.modify c f).get d)
      rw [Pool.get_modify]
      split
      next here => exact here.1 ▸ precedes
      next => exact .refl _ }

theorem addClass (w : World τ) (k : Class) : w.Extends { w with classes := w.classes.add k } :=
  { refl w with
    classes := fun _ known =>
      have same := Pool.get_add_of_has w.classes k known
      ⟨Pool.has_add _ _ _ known, congrArg Class.name same, congrArg Class.onEnter same⟩ }

theorem modifyClass (w : World τ) (k : ClassId) (f : Class → Class)
    (name : ∀ e, (f e).name = e.name) (hook : ∀ e, (f e).onEnter = e.onEnter) :
    w.Extends { w with classes := w.classes.modify k f } :=
  { refl w with
    classes := fun d known => ⟨(w.classes.has_modify k d f).trans known,
      w.classes.modify_keeps k d f _ name, w.classes.modify_keeps k d f _ hook⟩ }

theorem addFunction (w : World τ) (f : Function) :
    w.Extends { w with functions := w.functions.add f } :=
  { refl w with
    functions := fun _ known => ⟨Pool.has_add _ _ _ known,
      congrArg Function.name (Pool.get_add_of_has w.functions f known)⟩ }

theorem modifyFunction (w : World τ) (k : FunctionId) (f : Function → Function)
    (name : ∀ e, (f e).name = e.name) :
    w.Extends { w with functions := w.functions.modify k f } :=
  { refl w with
    functions := fun d known => ⟨(w.functions.has_modify k d f).trans known,
      w.functions.modify_keeps k d f _ name⟩ }

theorem addConstant (w : World τ) (k : Constant) :
    w.Extends { w with constants := w.constants.add k } :=
  { refl w with
    constants := fun _ known => ⟨Pool.has_add _ _ _ known, Pool.get_add_of_has _ k known⟩ }

theorem addModule (w : World τ) (m : Module) : w.Extends { w with modules := w.modules.add m } :=
  { refl w with
    modules := fun _ known => ⟨Pool.has_add _ _ _ known, fun _ =>
      congrArg Module.name (Pool.get_add_of_has w.modules m known)⟩ }

theorem nameModule (w : World τ) (m : ModuleId) (name internalName : Bytes) (minted : Nat) :
    w.Extends (w.nameModule m name internalName minted) :=
  { refl w with
    modules := fun d known => by
      refine ⟨(w.modules.has_modify m d _).trans known, fun named => ?_⟩
      rw [World.name_nameModule, if_neg fun both => named both.2.2] }

theorem conclude (w : World τ) (s : ScopeId) (source : Source) (m : ModuleId) :
    w.Extends (w.conclude s source m) := by
  obtain ⟨internalName, minted, same⟩ := w.conclude_eq s source m
  rw [same]
  exact (nameModule w m source.name internalName minted).trans
    (updateScope _ s _ fun x => .publishIn x _ m)

theorem addScope (w : World τ) (s : Scope) : w.Extends { w with scopes := w.scopes.add s } :=
  { refl w with
    scopes := fun t known => by
      refine ⟨Pool.has_add _ _ _ known, ?_⟩
      show (w.scopes.get t).Precedes ((w.scopes.add s).get t)
      rw [Pool.get_add_of_has w.scopes s known]
      exact .refl _ }

theorem addObject (w : World τ) (o : Object) : w.Extends { w with objects := w.objects.add o } :=
  { refl w with
    objects := fun _ known =>
      have same := Pool.get_add_of_has w.objects o known
      ⟨Pool.has_add _ _ _ known, fun there => (congrArg Object.isFinalized same).trans there,
        congrArg Object.binding same⟩ }

theorem markFinalized (w : World τ) (o : ObjectId) : w.Extends (w.markFinalized o) :=
  { refl w with
    objects := fun d known => by
      refine ⟨(w.objects.has_modify o d _).trans known, fun there => ?_,
        w.objects.modify_keeps o d _ Object.binding fun _ => rfl⟩
      show ((w.objects.modify o _).get d).isFinalized
      rw [Pool.get_modify]
      split
      next => rfl
      next => exact there }

theorem install (w : World τ) (x : Context) : w.Extends (w.install x) :=
  { refl w with
    contexts := fun c known => by
      refine ⟨Pool.has_add _ _ _ known, ?_⟩
      show (w.contexts.get c).Precedes ((w.contexts.add x).get c)
      rw [Pool.get_add_of_has w.contexts x known]
      exact .refl _ }

end Extends

theorem extends_note (w : Recorded σ) (event : Event) : w.Extends (w.note event) :=
  .of_same rfl rfl rfl rfl rfl rfl rfl

theorem extends_begin (w : Recorded σ) (o : Operation) : w.Extends (w.begin o) :=
  .of_same rfl rfl rfl rfl rfl rfl rfl

theorem extends_finish (w : Recorded σ) (running : List Operation) (o : Operation)
    (outcome : Except Signal o.Result) : w.Extends (w.finish running o outcome) :=
  .of_same rfl rfl rfl rfl rfl rfl rfl

theorem extends_insertClass (w : World τ) (c : ContextId) (k : ClassId) :
    w.Extends (w.insertClass c k) :=
  .updateContext w c _ (.of_same rfl rfl rfl rfl rfl rfl)

theorem extends_provide (w : World τ) (s : ScopeId) : w.Extends (w.provide s) :=
  .of_same rfl rfl rfl rfl rfl rfl rfl

theorem extends_enlist (w : World τ) (s : ScopeId) (sink : SinkId) : w.Extends (w.enlist s sink) :=
  (w.extends_provide s).trans (.install _ _)

theorem extends_shut (w : World τ) (c : ContextId) : w.Extends (w.shut c) :=
  .updateContext w c _ (.of_same rfl rfl rfl rfl rfl rfl)

theorem extends_close (w : World τ) (c : ContextId) : w.Extends (w.close c) :=
  (w.extends_shut c).trans (.of_same rfl rfl rfl rfl rfl rfl rfl)

theorem extends_leaveHook (w : Recorded σ) (c : ContextId) (lower : Bytes) (hook : Callback)
    (outcome : Except Signal (Option Failure)) : w.Extends (w.leaveHook c lower hook outcome) := by
  have noted := extends_note w (.answered (.enterClass hook c) outcome)
  unfold World.leaveHook
  split
  next => exact noted.trans (.updateContext _ c _ (.of_same rfl rfl rfl rfl rfl rfl))
  next => exact noted

theorem extends_setImporting (w : World τ) (s : ScopeId) (isImporting : Bool) :
    w.Extends (w.setImporting s isImporting) :=
  .updateScope w s _ fun _ => .of_same rfl

theorem extends_recordModule (w : World τ) (c : ContextId) (m : ModuleId) :
    w.Extends (w.recordModule c m) := by
  refine .updateContext w c _ ⟨rfl, .refl _, ?_, .refl _, .of_same rfl, List.prefix_rfl⟩
  dsimp only
  split
  next => exact .refl _
  next => exact .insert _ _ _

theorem extends_updateLoaders (w : World τ) (c : ContextId) (f : AutoloadChain → AutoloadChain) :
    w.Extends (w.updateLoaders c f) :=
  .updateContext w c _ (.of_same rfl rfl rfl rfl rfl rfl)

theorem extends_pushFrame (w : World τ) (c : ContextId) (f : Frame) : w.Extends (w.pushFrame c f) :=
  .updateContext w c _ (.of_continues (.pushFrame _ f) rfl rfl rfl rfl rfl)

theorem ofClass_markFinalized (w : World τ) (o d : ObjectId) :
    ((w.markFinalized o).objects.get d).ofClass = (w.objects.get d).ofClass :=
  w.objects.modify_keeps o d _ Object.ofClass fun _ => rfl

theorem destructor?_markFinalized (w : World τ) (o d : ObjectId) :
    (w.markFinalized o).destructor? d = w.destructor? d := by
  rw [destructor?, ofClass_markFinalized]
  rfl

theorem extends_reclaim (w : World τ) (c : ContextId) (handle : Nat) :
    w.Extends (w.reclaim c handle) :=
  .updateContext w c _ (.of_tracker ((w.context c).tracker.follows_reclaim handle))

theorem extends_popFrame (w : World τ) (c : ContextId) : w.Extends (w.popFrame c) := by
  unfold World.popFrame
  split
  next => exact .refl w
  next popped =>
    exact .updateContext w c _
      (.of_continues (.of_within (.pop? popped) rfl) rfl rfl rfl rfl rfl)

namespace Retires

variable {w v : Recorded σ} {c : ContextId} {o : ObjectId}

theorem onward (retires : w.Retires c o v) : (w.markFinalized o).Extends v := by
  cases retires with
  | asked => exact .refl _
  | visited handle => exact extends_reclaim _ c handle

theorem «extends» (retires : w.Retires c o v) : w.Extends v :=
  (Extends.markFinalized w o).trans retires.onward

theorem embedder (retires : w.Retires c o v) : v.embedder = w.embedder := by
  cases retires <;> rfl

theorem running (retires : w.Retires c o v) : v.embedder.running = w.embedder.running :=
  congrArg Ledger.running retires.embedder

theorem journal (retires : w.Retires c o v) : v.embedder.journal = w.embedder.journal :=
  congrArg Ledger.journal retires.embedder

theorem scopes (retires : w.Retires c o v) : v.scopes = w.scopes := by
  cases retires <;> rfl

theorem modules (retires : w.Retires c o v) : v.modules = w.modules := by
  cases retires <;> rfl

theorem has_context (retires : w.Retires c o v) (d : ContextId) :
    v.contexts.has d = w.contexts.has d := by
  cases retires with
  | asked => rfl
  | visited => exact Pool.has_modify ..

end Retires

namespace Concluded

variable {w w' : Recorded σ} {s : ScopeId} {source : Source} {m : ModuleId}

theorem «extends» (ended : w.Concluded s source m w') : w.Extends w' := by
  rcases ended with rfl | ⟨rfl, -⟩
  · exact .conclude w s source m
  · exact .refl _

theorem embedder (ended : w.Concluded s source m w') : w'.embedder = w.embedder := by
  rcases ended with rfl | ⟨rfl, -⟩
  · exact w.conclude_embedder s source m
  · rfl

theorem contexts (ended : w.Concluded s source m w') : w'.contexts = w.contexts := by
  rcases ended with rfl | ⟨rfl, -⟩
  · exact w.conclude_contexts s source m
  · rfl

theorem objects (ended : w.Concluded s source m w') : w'.objects = w.objects := by
  rcases ended with rfl | ⟨rfl, -⟩
  · obtain ⟨_, _, _, same⟩ := w.conclude_same s source m
    rw [same]
  · rfl

theorem classes (ended : w.Concluded s source m w') : w'.classes = w.classes := by
  rcases ended with rfl | ⟨rfl, -⟩
  · obtain ⟨_, _, _, same⟩ := w.conclude_same s source m
    rw [same]
  · rfl

end Concluded

end World

theorem Change.extends {σ : Type} {making : List ContextId} {w w' : Recorded σ}
    (step : Change making w w') : w.Extends w' := by
  cases step with
  | addClass k => exact .addClass w k
  | addMethod k m => exact .modifyClass w k _ (fun _ => rfl) (fun _ => rfl)
  | shareClass k => exact .modifyClass w k _ (fun _ => rfl) (fun _ => rfl)
  | addFunction f => exact .addFunction w f
  | shareFunction f => exact .modifyFunction w f _ (fun _ => rfl)
  | addConstant k => exact .addConstant w k
  | addModule m => exact .addModule w m
  | addObject o => exact .addObject w o
  | markFinalized o => exact .markFinalized w o
  | surroundings | note | setOwn => exact .of_same rfl rfl rfl rfl rfl rfl rfl
  | addScope s => exact .addScope w s.bare
  | setDefaults s => exact .updateScope w s _ fun _ => .of_same rfl
  | declareClass s =>
    exact .updateScope w s _ fun _ => ⟨Scope.within_enter _ _ _, .refl _, fun _ _ => id⟩
  | declareFunction s =>
    exact .updateScope w s _ fun _ => ⟨.refl _, Scope.within_enter _ _ _, fun _ _ => id⟩
  | declareConstant s k =>
    exact .updateScope w s _ fun _ => ⟨.refl _, .refl _, ConstantSet.within_enterSet _ _ k⟩
  | pushCall c f => exact w.extends_pushFrame c f
  | popCall c => exact w.extends_popFrame c
  | adjust c f adjusts =>
    have adjusted := adjusts (w.context c)
    have same := adjusted.holdings
    exact .updateContext w c f ⟨congrArg Context.Holdings.scope same,
      .of_eq (congrArg Context.Holdings.tracker same),
      .of_eq (congrArg Context.Holdings.modules same), .of_becomes adjusted.output,
      .of_same adjusted.activity, adjusted.shutdown⟩
  | close c => exact w.extends_close c
  | loadClass c k => exact w.extends_insertClass c k
  | inherit c p =>
    exact .updateContext w c _ ⟨rfl, .refl _, .overlay _ _, .refl _, .of_same rfl, List.prefix_rfl⟩
  | cacheFunction c | insertFunction c | mergeFunctions c | cacheConstant c
  | insertConstant c =>
    exact .updateContext w c _ (.of_same rfl rfl rfl rfl rfl rfl)
  | assign c distance top args there =>
    exact .updateContext w c _
      (.of_continues (.of_within (.assign args there) rfl) rfl rfl rfl rfl rfl)
  | remember c serial f keepsSerial keepsFrame =>
    exact .updateContext w c _
      (.of_continues (.of_within (.remember serial keepsSerial keepsFrame) rfl) rfl rfl rfl rfl rfl)
  | reclaim c handle => exact w.extends_reclaim c handle
  | drain c =>
    exact .updateContext w c _ (.of_tracker (w.context c).tracker.follows_drain)
  | track c o =>
    exact .updateContext w c _ (.of_tracker ((w.context c).tracker.follows_add o))

theorem Course.extends {σ : Type} {making : List ContextId} {w w' : Recorded σ}
    (course : Course making w w') : w.Extends w' := by
  induction course with
  | still w => exact .refl w
  | change step => exact step.extends
  | trans _ _ first rest => exact first.trans rest
  | operation o outcome _ _ _ ih =>
    exact (World.extends_begin _ o).trans (ih.trans (World.extends_finish _ _ o outcome))
  | frame c f _ _ ih =>
    exact (World.extends_pushFrame _ c f).trans (ih.trans (World.extends_popFrame _ c))
  | @autoload _ w w' c _ _ _ _ _ ih =>
    exact (w.extends_updateLoaders c _).trans (ih.trans (w'.extends_updateLoaders c _))
  | @destructor _ _ _ _ c o k f _ _ _ retires _ _ ih =>
    have pushed := retires.extends.trans (World.extends_pushFrame _ c f)
    exact (pushed.trans (World.extends_note _ _)).trans (ih.trans (World.extends_popFrame _ c))
  | @hook _ w _ c k k' _ _ _ _ outcome _ _ _ ih =>
    have called := (w.extends_insertClass c k).trans
      (World.extends_note _ (.called (.enterClass k' c)))
    exact called.trans (ih.trans (World.extends_leaveHook _ c _ k' outcome))
  | @registration _ w w' c m _ _ _ _ ih => exact ih.trans (w'.extends_recordModule c m)
  | @attempt _ w w' c _ _ _ ih =>
    exact (w.extends_setImporting _ true).trans (ih.trans (w'.extends_setImporting _ false))
  | @loading _ w u v w' c _ _ _ _ _ event _ _ _ ended before after =>
    exact (w.extends_setImporting _ true).trans (before.trans ((u.extends_note event).trans
      (after.trans (ended.extends.trans (w'.extends_setImporting _ false)))))
  | creation s sink _ _ _ ih => exact (World.extends_enlist _ s sink).trans ih

end ScriptHost
