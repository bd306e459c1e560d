import ScriptHost.Proofs.Registry.Declaring

set_option autoImplicit false

namespace ScriptHost

variable {σ τ : Type} {making : List ContextId}

namespace Scope

variable {s t : Scope} {w v : World τ} {e x : Entity}

/-- What has the place of an entity in a scope. -/
def holder (s : Scope) (w : World τ) : Entity → Option Entity
  | .ofClass k => (s.classes.get? (w.classes.get k).lowerName).map .ofClass
  | .ofFunction f => (s.functions.get? (w.functions.get f).lowerName).map .ofFunction
  | .ofConstant k => (s.constants.find? (w.constants.get k).name).map .ofConstant

def offer (s : Scope) (w : World τ) (e : Entity) : Scope :=
  if (s.holder w e).isSome then s else s.adopt w e

def offerAll (s : Scope) (w : World τ) (es : List Entity) : Scope := es.foldl (·.offer w) s

theorem offer_ofClass (s : Scope) (w : World τ) (k : ClassId) : s.offer w (.ofClass k) =
    { s with classes := (enter s.classes (w.classes.get k).lowerName k).2 } := by
  cases found : s.classes.get? (w.classes.get k).lowerName <;>
    simp [offer, holder, enter, adopt, found]

theorem offer_ofFunction (s : Scope) (w : World τ) (f : FunctionId) : s.offer w (.ofFunction f) =
    { s with functions := (enter s.functions (w.functions.get f).lowerName f).2 } := by
  cases found : s.functions.get? (w.functions.get f).lowerName <;>
    simp [offer, holder, enter, adopt, found]

theorem offer_ofConstant (s : Scope) (w : World τ) (k : ConstantId) : s.offer w (.ofConstant k) =
    { s with constants := (ConstantRegistry.enterSet s.constants (w.constants.get k) k).2 } := by
  cases found : s.constants.find? (w.constants.get k).name <;>
    simp [offer, holder, ConstantRegistry.enterSet, adopt, found]

theorem precedes_offer (s : Scope) (w : World τ) (e : Entity) : s.Precedes (s.offer w e) := by
  cases e with
  | ofClass k =>
    rw [offer_ofClass]
    exact ⟨within_enter _ _ _, .refl _, fun _ _ => id⟩
  | ofFunction f =>
    rw [offer_ofFunction]
    exact ⟨.refl _, within_enter _ _ _, fun _ _ => id⟩
  | ofConstant k =>
    rw [offer_ofConstant]
    exact ⟨.refl _, .refl _, ConstantSet.within_enterSet _ _ k⟩

theorem precedes_offerAll (s : Scope) (w : World τ) (es : List Entity) :
    s.Precedes (s.offerAll w es) := by
  induction es generalizing s with
  | nil => exact .refl s
  | cons e rest ih => exact (s.precedes_offer w e).trans (ih _)

theorem holder_later (precedes : s.Precedes t) (held : s.holder w e = some x) :
    t.holder w e = some x := by
  cases e with
  | ofClass k =>
    obtain ⟨b, found, rfl⟩ := Option.map_eq_some_iff.1 held
    exact congrArg (Option.map _) (precedes.classes _ b found)
  | ofFunction f =>
    obtain ⟨b, found, rfl⟩ := Option.map_eq_some_iff.1 held
    exact congrArg (Option.map _) (precedes.functions _ b found)
  | ofConstant k =>
    obtain ⟨b, found, rfl⟩ := Option.map_eq_some_iff.1 held
    exact congrArg (Option.map _) (precedes.constants _ b found)

theorem isTaken_later (precedes : s.Precedes t) (taken : (s.holder w e).isSome) :
    (t.holder w e).isSome := by
  obtain ⟨x, held⟩ := Option.isSome_iff_exists.1 taken
  rw [holder_later precedes held]
  rfl

theorem isTaken_offer (s : Scope) (w : World τ) (e : Entity) : ((s.offer w e).holder w e).isSome := by
  cases e with
  | ofClass k =>
    rw [offer_ofClass, holder, enter_fst]
    rfl
  | ofFunction f =>
    rw [offer_ofFunction, holder, enter_fst]
    rfl
  | ofConstant k =>
    rw [offer_ofConstant, holder, ConstantRegistry.enterSet]
    split
    next found => rw [found]; rfl
    next absent =>
      have own : (s.constants.add (w.constants.get k) k).find? (w.constants.get k).name = some k :=
        ConstantSet.find?_add_self k absent (by split <;> rfl)
      rw [own]
      rfl

theorem isTaken_offerAll {es : List Entity} (member : e ∈ es) :
    ((s.offerAll w es).holder w e).isSome := by
  induction es generalizing s with
  | nil => cases member
  | cons first rest ih =>
    rcases List.mem_cons.1 member with rfl | later
    · exact isTaken_later (precedes_offerAll (s.offer w e) w rest) (isTaken_offer s w e)
    · exact ih later

theorem holder_congr {v : World σ} (same : (e.profile v).name = (e.profile w).name) :
    s.holder v e = s.holder w e := by
  cases e with
  | ofClass k =>
    exact congrArg (fun name => (s.classes.get? (Bytes.lower name)).map Entity.ofClass) same
  | ofFunction f =>
    exact congrArg (fun name => (s.functions.get? (Bytes.lower name)).map Entity.ofFunction) same
  | ofConstant k => exact congrArg (fun name => (s.constants.find? name).map Entity.ofConstant) same

section Lists

theorem offerAll_append (s : Scope) (w : World τ) (es fs : List Entity) :
    s.offerAll w (es ++ fs) = (s.offerAll w es).offerAll w fs :=
  List.foldl_append ..

theorem offerAll_classes (s : Scope) (w : World τ) (ks : List ClassId) :
    s.offerAll w (ks.map .ofClass) = { s with
      classes := ks.foldl (fun t k => (enter t (w.classes.get k).lowerName k).2) s.classes } := by
  induction ks generalizing s with
  | nil => rfl
  | cons k rest ih => exact (ih (s.offer w (.ofClass k))).trans (by rw [offer_ofClass]; rfl)

theorem offerAll_functions (s : Scope) (w : World τ) (fs : List FunctionId) :
    s.offerAll w (fs.map .ofFunction) = { s with
      functions := fs.foldl (fun t f => (enter t (w.functions.get f).lowerName f).2)
        s.functions } := by
  induction fs generalizing s with
  | nil => rfl
  | cons f rest ih => exact (ih (s.offer w (.ofFunction f))).trans (by rw [offer_ofFunction]; rfl)

theorem offerAll_constants (s : Scope) (w : World τ) (ks : List ConstantId) :
    s.offerAll w (ks.map .ofConstant) = { s with
      constants := ks.foldl
        (fun t k => (ConstantRegistry.enterSet t (w.constants.get k) k).2) s.constants } := by
  induction ks generalizing s with
  | nil => rfl
  | cons k rest ih => exact (ih (s.offer w (.ofConstant k))).trans (by rw [offer_ofConstant]; rfl)

end Lists

end Scope

theorem World.has_of_isTaken {w : World σ} {v : World τ} {t : ScopeId} {x : Entity}
    (taken : ((w.scopes.get t).holder v x).isSome) : w.scopes.has t := by
  refine Decidable.byContradiction fun unknown => ?_
  rw [Pool.get_of_not_has _ unknown] at taken
  cases x <;> cases taken

def World.statics (w : World τ) (es : List Entity) : List Entity :=
  es.filter fun e => (e.profile w).isStatic

def World.entities (w : World τ) (m : ModuleId) : List Entity :=
  (w.modules.get m).classes.map .ofClass ++ (w.modules.get m).functions.map .ofFunction ++
    (w.modules.get m).constants.map .ofConstant

def World.declared (w : World τ) (m : ModuleId) : List Entity := w.statics (w.entities m)

theorem World.mem_declared {w : World τ} {e : Entity} {m : ModuleId} :
    e ∈ w.declared m ↔ e ∈ w.entities m ∧ (e.profile w).isStatic :=
  List.mem_filter

theorem World.Sound.knows_entities {w : World τ} {e : Entity} {m : ModuleId} (sound : w.Sound)
    (member : e ∈ w.entities m) : e.isKnown w := by
  obtain ⟨classes, functions, constants⟩ := (Module.isGrounded_iff _ w).1 (sound.modules m)
  simp only [World.entities, List.mem_append, List.mem_map] at member
  rcases member with (⟨k, member, rfl⟩ | ⟨f, member, rfl⟩) | ⟨k, member, rfl⟩
  · exact classes k member
  · exact functions f member
  · exact constants k member

theorem Modules.publishIn_eq (w : World τ) (m : ModuleId) (s : Scope) :
    publishIn w m s = { s.offerAll w (w.declared m) with
      modules := if (w.modules.get m).name.isEmpty then s.modules
        else s.modules.insert (w.modules.get m).name m
      moduleIndex := s.moduleIndex.insert (w.modules.get m).internalName m } := by
  have always : ((fun x : Entity => (x.profile w).isStatic) ∘ Entity.ofConstant) = fun _ => true :=
    rfl
  rw [World.declared, World.statics, World.entities, List.filter_append, List.filter_append,
    List.filter_map, List.filter_map, List.filter_map, always, List.filter_eq_self.2 fun _ _ => rfl,
    Scope.offerAll_append, Scope.offerAll_append,
    Scope.offerAll_classes, Scope.offerAll_functions, Scope.offerAll_constants]
  rfl

theorem World.keeps_nameModule {α : Type} (w : World τ) (d m : ModuleId) (name internalName : Bytes)
    (minted : Nat) (f : Module → α)
    (same : ∀ e name i, f { e with name, internalName := i } = f e) :
    f ((w.nameModule d name internalName minted).modules.get m) = f (w.modules.get m) :=
  w.modules.modify_keeps d m _ f fun e => same e _ _

namespace World

structure Provides (w : World τ) (m : ModuleId) (x : Entity) (name : Bytes) : Prop where
  loaded : w.modules.has m
  known : x.isKnown w
  offered : x ∈ w.declared m
  named : (x.profile w).name = name

namespace Provides

variable {w v : World τ} {m : ModuleId} {x : Entity} {name : Bytes}

theorem ofSound (sound : w.Sound) (loaded : w.modules.has m) (offered : x ∈ w.declared m) :
    w.Provides m x (x.profile w).name :=
  ⟨loaded, sound.knows_entities (mem_declared.1 offered).1, offered, rfl⟩

theorem later (provides : w.Provides m x name) (loaded : v.modules.has m) (known : x.isKnown v)
    (classes : (v.modules.get m).classes = (w.modules.get m).classes)
    (functions : (v.modules.get m).functions = (w.modules.get m).functions)
    (constants : (v.modules.get m).constants = (w.modules.get m).constants)
    (named : (x.profile v).name = (x.profile w).name)
    (isStatic : (x.profile w).isStatic → (x.profile v).isStatic) : v.Provides m x name := by
  obtain ⟨member, own⟩ := mem_declared.1 provides.offered
  refine ⟨loaded, known, mem_declared.2 ⟨?_, isStatic own⟩, named.trans provides.named⟩
  rwa [entities, classes, functions, constants]

theorem of_same (provides : w.Provides m x name) (classes : v.classes = w.classes)
    (functions : v.functions = w.functions) (constants : v.constants = w.constants)
    (modules : v.modules = w.modules) : v.Provides m x name := by
  have profile : x.profile v = x.profile w := by cases x <;> simp [Entity.profile, *]
  refine provides.later (modules ▸ provides.loaded) ?_ (by rw [modules]) (by rw [modules])
    (by rw [modules]) (by rw [profile]) (by rw [profile]; exact id)
  have known := provides.known
  cases x <;> simpa [Entity.isKnown, *] using known

theorem embed (provides : w.Provides m x name) (own : σ) :
    Provides { w with embedder := own } m x name where
  loaded := provides.loaded
  known := by cases x <;> exact provides.known
  offered := by
    obtain ⟨member, isStatic⟩ := mem_declared.1 provides.offered
    exact mem_declared.2 ⟨member, by cases x <;> exact isStatic⟩
  named := by
    rw [← provides.named]
    cases x <;> rfl

theorem ofModule (provides : w.Provides m x name) (modules : Pool .modules Module)
    (loaded : modules.has m) (classes : (modules.get m).classes = (w.modules.get m).classes)
    (functions : (modules.get m).functions = (w.modules.get m).functions)
    (constants : (modules.get m).constants = (w.modules.get m).constants) :
    Provides { w with modules } m x name :=
  provides.later loaded (by cases x <;> exact provides.known) classes functions constants
    (by cases x <;> rfl) (by cases x <;> exact id)

theorem nameModule (provides : w.Provides m x name) (d : ModuleId) (called internalName : Bytes)
    (minted : Nat) : (w.nameModule d called internalName minted).Provides m x name := by
  have kept {α : Type} (f : Module → α) := w.keeps_nameModule d m called internalName minted f
  have named := provides.ofModule (w.nameModule d called internalName minted).modules
    ((w.modules.has_modify d m _).trans provides.loaded) (kept Module.classes fun _ _ _ => rfl)
    (kept Module.functions fun _ _ _ => rfl) (kept Module.constants fun _ _ _ => rfl)
  exact named.of_same rfl rfl rfl rfl

end Provides

end World

theorem Change.provides {w w' : Recorded σ} (step : Change making w w') {m : ModuleId} {x : Entity}
    {name : Bytes} (provides : w.Provides m x name) : w'.Provides m x name := by
  have known := provides.known
  -- an entity that is known keeps its name, and is static once and for all
  have entity {v : Recorded σ} (modules : v.modules = w.modules) (later : x.isKnown v)
      (named : (x.profile v).name = (x.profile w).name)
      (isStatic : (x.profile w).isStatic → (x.profile v).isStatic) : v.Provides m x name :=
    provides.later (modules ▸ provides.loaded) later (by rw [modules]) (by rw [modules])
      (by rw [modules]) named isStatic
  cases step with
  | addClass k =>
    cases x with
    | ofClass b =>
      have same := Pool.get_add_of_has w.classes k known
      exact entity rfl (Pool.has_add _ _ _ known) (congrArg Class.name same)
        (congrArg Class.isStatic same).trans
    | _ => exact entity rfl known rfl id
  | addMethod k d =>
    cases x with
    | ofClass b =>
      have same := w.classes.modify_keeps k b (·.addMethod d) Class.isStatic fun _ => rfl
      exact entity rfl ((w.classes.has_modify k b _).trans known)
        (w.classes.modify_keeps k b _ Class.name fun _ => rfl) same.trans
    | _ => exact entity rfl known rfl id
  | shareClass k s =>
    cases x with
    | ofClass b =>
      refine entity rfl ((w.classes.has_modify k b _).trans known)
        (w.classes.modify_keeps k b _ Class.name fun _ => rfl) fun own => ?_
      show ((w.classes.modify k _).get b).isStatic
      rw [Pool.get_modify]
      split
      next => rfl
      next => exact own
    | _ => exact entity rfl known rfl id
  | addFunction f =>
    cases x with
    | ofFunction b =>
      have same := Pool.get_add_of_has w.functions f known
      exact entity rfl (Pool.has_add _ _ _ known) (congrArg Function.name same)
        (congrArg Function.isStatic same).trans
    | _ => exact entity rfl known rfl id
  | shareFunction f s =>
    cases x with
    | ofFunction b =>
      refine entity rfl ((w.functions.has_modify f b _).trans known)
        (w.functions.modify_keeps f b _ Function.name fun _ => rfl) fun own => ?_
      show ((w.functions.modify f _).get b).isStatic
      rw [Pool.get_modify]
      split
      next => rfl
      next => exact own
    | _ => exact entity rfl known rfl id
  | addConstant k =>
    cases x with
    | ofConstant b =>
      have same := Pool.get_add_of_has w.constants k known
      exact entity rfl (Pool.has_add _ _ _ known) (congrArg Constant.name same) fun _ => rfl
    | _ => exact entity rfl known rfl id
  | addModule e =>
    have same := Pool.get_add_of_has w.modules e provides.loaded
    exact provides.ofModule _ (Pool.has_add _ _ _ provides.loaded) (congrArg Module.classes same)
      (congrArg Module.functions same) (congrArg Module.constants same)
  | popCall c =>
    unfold World.popFrame
    split
    next => exact provides
    next => exact provides.of_same rfl rfl rfl rfl
  | _ => exact provides.of_same rfl rfl rfl rfl

theorem World.provides_invariant (m : ModuleId) (x : Entity) (name : Bytes) :
    World.IsInvariant fun w : World σ => w.Provides m x name where
  change {_ w w'} step provides := (step.provides (provides.embed w.embedder)).embed w'.embedder.own
  pushFrame _ _ _ provides := provides.of_same rfl rfl rfl rfl
  popFrame {w} c provides := by
    unfold World.popFrame
    split
    next => exact provides
    next => exact provides.of_same rfl rfl rfl rfl
  updateLoaders _ _ provides := provides.of_same rfl rfl rfl rfl
  markFinalized _ provides := provides.of_same rfl rfl rfl rfl
  insertClass _ _ _ provides := provides.of_same rfl rfl rfl rfl
  eraseClass _ _ provides := provides.of_same rfl rfl rfl rfl
  recordModule _ _ provides := provides.of_same rfl rfl rfl rfl
  setImporting _ _ provides := provides.of_same rfl rfl rfl rfl
  conclude {w} s source d provides := by
    obtain ⟨internalName, minted, same⟩ := w.conclude_eq s source d
    rw [same]
    exact (provides.nameModule d source.name internalName minted).of_same rfl rfl rfl rfl
  enlist _ _ provides := provides.of_same rfl rfl rfl rfl

theorem World.isTaken_conclude {w : World τ} {t : ScopeId} (there : w.scopes.has t) (source : Source)
    {m : ModuleId} {x : Entity} {name : Bytes} (provides : w.Provides m x name) {u : World σ}
    (named : (x.profile u).name = name) :
    (((w.conclude t source m).scopes.get t).holder u x).isSome := by
  obtain ⟨internalName, minted, same⟩ := w.conclude_eq t source m
  have published := provides.nameModule m source.name internalName minted
  rw [same]
  show (((w.scopes.modify t _).get t).holder u x).isSome
  rw [Pool.get_modify_self _ _ _ there, Modules.publishIn_eq,
    Scope.holder_congr (named.trans published.named.symm)]
  exact Scope.isTaken_later (.of_same rfl) (Scope.isTaken_offerAll published.offered)

end ScriptHost
