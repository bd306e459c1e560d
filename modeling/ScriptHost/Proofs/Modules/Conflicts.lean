import ScriptHost.Proofs.Boundary.Classification
import ScriptHost.Proofs.Modules.Offers
import ScriptHost.Proofs.Registry.Registration

set_option autoImplicit false

namespace ScriptHost

open Run

variable {τ : Type} {w u v : World τ} {c : ContextId} {h : Host τ} {e : Entity} {es : List Entity}
  {m : ModuleId}

def Run.Spares {α : Type} (c : ContextId) (m : Run τ α) : Prop :=
  ∀ w : World τ, w.Upholds (m w).2 c

namespace World

theorem upholds_updateContext (w : World τ) (c : ContextId) (f : Context → Context)
    (scope : ∀ x, (f x).scope = x.scope) (declarations : ∀ x, (f x).declarations = x.declarations)
    (catalogue : ∀ x, (f x).catalogue = x.catalogue) : w.Upholds (w.updateContext c f) c where
  entities _ known := ⟨known, rfl⟩
  modules _ known := ⟨known, rfl⟩
  there there := (w.has_updateContext c c f).trans there
  scope := w.contexts.modify_keeps c c f Context.scope scope
  housed housed := by
    rwa [show ((w.updateContext c f).context c).scope = (w.context c).scope from
      w.contexts.modify_keeps c c f Context.scope scope]
  own := w.contexts.modify_keeps c c f Context.catalogue catalogue
  shared := by rw [scopeOf_updateContext _ _ _ _ scope]
  names := by
    rw [names, scopeOf_updateContext _ _ _ _ scope,
      show ((w.updateContext c f).context c).declarations = _ from
        w.contexts.modify_keeps c c f Context.declarations declarations]
    rfl

end World

theorem Run.isClosed_spares (c : ContextId) :
    Run.IsClosed c fun α (m : Run τ α) => m.Spares c where
  pure a w := .refl w c
  bind {α β m f} first rest w := by
    rw [bind_apply]
    have upheld := first w
    rcases result : m w with ⟨signal | a, u⟩ <;> rw [result] at upheld
    · exact upheld
    · exact upheld.trans (rest a u)
  context w := .refl w c
  modifyStack _ _ w := w.upholds_updateContext c _ (fun _ => rfl) (fun _ => rfl) fun _ => rfl
  onSink f w := ⟨⟨fun _ known => ⟨known, rfl⟩, fun _ known => ⟨known, rfl⟩, id, rfl, id, rfl, rfl⟩,
    rfl⟩

structure Host.SparesRegistries (h : Host τ) (c : ContextId) : Prop where
  handleError : ∀ k m, (h.handleError k c m).Spares c
  reportError : ∀ k m, (h.reportError k c m).Spares c
  filterOutput : ∀ k chunk mode, (h.filterOutput k c chunk mode).Spares c

structure Host.ReturnsFromHandlers (h : Host τ) (c : ContextId) : Prop where
  handleError : ∀ k m, (h.handleError k c m).Returns
  reportError : ∀ k m, (h.reportError k c m).Returns
  filterOutput : ∀ k chunk mode, (h.filterOutput k c chunk mode).Returns

theorem Diagnostics.warning_spares (spares : h.SparesRegistries c) (trace : Trace) (text : Bytes) :
    (warning h c trace text).Spares c :=
  warning_closed (isClosed_spares c) spares.filterOutput spares.handleError spares.reportError
    (fun _ w => w.upholds_updateContext c _ (fun _ => rfl) (fun _ => rfl) fun _ => rfl) trace text

theorem Diagnostics.warning_returns (returns : h.ReturnsFromHandlers c) (trace : Trace)
    (text : Bytes) : (warning h c trace text).Returns :=
  warning_closed (isClosed_returns c) returns.filterOutput returns.handleError returns.reportError
    (fun _ _ => ⟨_, _, rfl⟩) trace text

namespace Entity

def redeclared : Entity → Bytes → Bytes
  | .ofClass _ => ClassRegistry.redeclared
  | .ofFunction _ => FunctionRegistry.redeclared
  | .ofConstant _ => ConstantRegistry.redeclared

def warn (h : Host τ) (c : ContextId) (e : Entity) : Run τ Unit := do
  let p := e.profile (← get)
  Diagnostics.warning h c p.trace (e.redeclared p.name)

theorem warn_apply (h : Host τ) (c : ContextId) (e : Entity) (w : World τ) : e.warn h c w =
    Diagnostics.warning h c (e.profile w).trace (e.redeclared (e.profile w).name) w := by
  rw [warn, bind_ok (get_apply w)]

def take (h : Host τ) (c : ContextId) : Entity → Run τ Unit
  | .ofClass k => do
    if (← Run.classOf k).isStatic then
      if !(← ClassRegistry.declare h c k) then
        let e ← Run.classOf k
        Diagnostics.warning h c e.trace (ClassRegistry.redeclared e.name)
  | .ofFunction f => do
    let e ← Run.functionOf f
    if e.isStatic then
      if !(← FunctionRegistry.declare c f) then
        Diagnostics.warning h c e.trace (FunctionRegistry.redeclared e.name)
  | .ofConstant k => do
    if !(← ConstantRegistry.declare c k) then
      let e ← Run.constantOf k
      Diagnostics.warning h c e.trace (ConstantRegistry.redeclared e.name)

def takeAll (h : Host τ) (c : ContextId) : List Entity → Run τ Unit
  | [] => return
  | e :: rest => do
    e.take h c
    takeAll h c rest

def takeAs (h : Host τ) (c : ContextId) (turn : Entity × Bool) : Run τ Unit := do
  let _ ← turn.1.declare h c
  if turn.2 then turn.1.warn h c

def takeAllAs (h : Host τ) (c : ContextId) : List (Entity × Bool) → Run τ Unit
  | [] => return
  | turn :: rest => do
    takeAs h c turn
    takeAllAs h c rest

theorem take_dynamic (h : Host τ) (c : ContextId) (dynamic : (e.profile w).isStatic = false) :
    e.take h c w = (.ok (), w) := by
  cases e with
  | ofClass k =>
    rw [take, bind_ok (classOf_apply w k), show (w.classes.get k).isStatic = false from dynamic]
    rfl
  | ofFunction f =>
    rw [take, bind_ok (functionOf_apply w f),
      show (w.functions.get f).isStatic = false from dynamic]
    rfl
  | ofConstant k => cases dynamic

theorem take_static (isStatic : (e.profile w).isStatic) {b : Bool}
    (declared : e.declare h c w = (.ok b, v)) (same : e.profile v = e.profile w) :
    e.take h c w = if b then (.ok (), v) else e.warn h c v := by
  cases e with
  | ofClass k =>
    have own : (w.classes.get k).isStatic := isStatic
    rw [take, bind_ok (classOf_apply w k), if_pos own,
      bind_ok (show ClassRegistry.declare h c k w = _ from declared)]
    cases b with
    | true => rfl
    | false =>
      rw [if_pos (by rfl), bind_ok (classOf_apply v k), if_neg (by simp), warn_apply]
      rfl
  | ofFunction f =>
    have own : (w.functions.get f).isStatic := isStatic
    rw [take, bind_ok (functionOf_apply w f), if_pos own,
      bind_ok (show FunctionRegistry.declare c f w = _ from declared)]
    cases b with
    | true => rfl
    | false =>
      rw [if_pos (by rfl), if_neg (by simp), warn_apply, same]
      rfl
  | ofConstant k =>
    rw [take, bind_ok (show ConstantRegistry.declare c k w = _ from declared)]
    cases b with
    | true => rfl
    | false =>
      rw [if_pos (by rfl), bind_ok (constantOf_apply v k), if_neg (by simp), warn_apply]
      rfl

structure IsDeclarable (e : Entity) (h : Host τ) (c : ContextId) (w : World τ) : Prop where
  known : e.isKnown w
  plain : e.IsPlain w
  calm : ∀ hook, (e.profile w).onEnter = some hook → h.Calms c hook

theorem IsDeclarable.later (declarable : e.IsDeclarable h c w)
    (kept : e.isKnown v ∧ e.profile v = e.profile w) : e.IsDeclarable h c v where
  known := kept.1
  plain := by
    rw [IsPlain, kept.2]
    exact declarable.plain
  calm hook own := declarable.calm hook (kept.2 ▸ own)

theorem take_settles (spares : h.SparesRegistries c) (usable : w.IsUsable h c)
    (declarable : e.IsDeclarable h c w) (isStatic : (e.profile w).isStatic) :
    e.take h c w = takeAs h c (e, decide ((w.names c).standing w e ≠ e)) w ∧
    w.Reaches (e.take h c w).2 c ((w.names c).settle w e) ∧
    (h.ReturnsFromHandlers c → (e.take h c w).1 = .ok ()) := by
  obtain ⟨v, declared, reaches⟩ :=
    declare_declares usable ⟨isStatic, declarable.calm⟩ declarable.plain
  have taken := take_static isStatic declared (reaches.entities e declarable.known).2
  have warned := Diagnostics.warning_spares spares (e.profile v).trace
    (e.redeclared (e.profile v).name) v
  rw [takeAs, bind_ok declared, taken]
  by_cases own : (w.names c).standing w e = e
  · simp only [own, decide_true, if_true, ne_eq, not_true_eq_false, decide_false]
    exact ⟨rfl, reaches, fun _ => trivial⟩
  · simp only [own, decide_false, if_false, ne_eq, not_false_eq_true, decide_true, if_true,
      Bool.false_eq_true]
    refine ⟨trivial, reaches.trans (by rwa [warn_apply]), fun returns => ?_⟩
    obtain ⟨_, u, result⟩ := Diagnostics.warning_returns returns (e.profile v).trace
      (e.redeclared (e.profile v).name) v
    rw [warn_apply, result]

end Entity

namespace Entity

theorem statics_cons_static (isStatic : (e.profile w).isStatic) :
    w.statics (e :: es) = e :: w.statics es :=
  List.filter_cons_of_pos (p := fun e : Entity => (e.profile w).isStatic) isStatic

theorem statics_cons_dynamic (dynamic : (e.profile w).isStatic = false) :
    w.statics (e :: es) = w.statics es :=
  List.filter_cons_of_neg (p := fun e : Entity => (e.profile w).isStatic) (by simp [dynamic])

theorem takeAll_settles (spares : h.SparesRegistries c) (kept : u.KeepsEntities w c)
    (sound : (w.names c).IsSound u) (usable : w.IsUsable h c)
    (declarable : ∀ e ∈ es, e.IsDeclarable h c u) :
    takeAll h c es w = takeAllAs h c ((w.names c).turns u (u.statics es)) w ∧
    (∃ before after, u.statics es = before ++ after ∧
      w.Reaches (takeAll h c es w).2 c ((w.names c).settleAll u before) ∧
      ((takeAll h c es w).1 = .ok () → after = [])) ∧
    (h.ReturnsFromHandlers c → (takeAll h c es w).1 = .ok ()) := by
  induction es generalizing w with
  | nil => exact ⟨rfl, ⟨[], [], rfl, .refl w c, fun _ => rfl⟩, fun _ => rfl⟩
  | cons e rest ih =>
    obtain ⟨first, others⟩ := List.forall_mem_cons.1 declarable
    have here := kept.entities e first.known
    cases isStatic : (e.profile u).isStatic with
    | false =>
      have skipped : takeAll h c (e :: rest) w = takeAll h c rest w :=
        bind_ok (take_dynamic h c (here.2 ▸ isStatic))
      rw [skipped, statics_cons_dynamic isStatic]
      exact ih kept sound usable others
    | true =>
      have isStatic' : (e.profile w).isStatic := here.2 ▸ isStatic
      obtain ⟨asked, reaches, returns⟩ := take_settles spares usable (first.later here) isStatic'
      -- settling looks at the profiles only, and those of known entities are what they were in the
      -- world before
      have settled : (w.names c).settle w e = (w.names c).settle u e :=
        Naming.settle_congr sound e (fun x known => (kept.entities x known).2) first.known
      have ready : ∀ x ∈ [e], x.isKnown w ∧ x.IsReady h c w :=
        List.forall_mem_singleton.2 ⟨here.1, isStatic', (first.later here).calm⟩
      have still := usable.settledAll ready reaches
      rw [settled] at reaches
      rw [Naming.standing_congr _ here.2] at asked
      rw [statics_cons_static isStatic, takeAll, Naming.turns, takeAllAs, bind_apply, bind_apply,
        ← asked]
      -- a turn that is interrupted has declared its entity all the same, so the break comes behind
      -- it
      rcases ended : e.take h c w with ⟨signal | _, v⟩ <;> rw [ended] at reaches returns still
      · refine ⟨rfl, ⟨[e], u.statics rest, rfl, reaches, fun done => ?_⟩, fun returning => ?_⟩
        · cases done
        · cases returns returning
      · have sound' : (v.names c).IsSound u := reaches.names ▸ sound.settle first.known
        obtain ⟨equal, ⟨before, after, parts, later, completes⟩, returned⟩ :=
          ih (kept.trans reaches.toKeepsEntities) sound' still others
        rw [reaches.names] at equal later
        refine ⟨equal, ⟨e :: before, after, congrArg _ parts, ?_, completes⟩, returned⟩
        exact ⟨reaches.toKeepsEntities.trans later.toKeepsEntities, later.names⟩

end Entity

def World.turns (w : World τ) (c : ContextId) (m : ModuleId) : List (Entity × Bool) :=
  (w.names c).turns w (w.declared m)

namespace Modules

theorem declareClasses_eq (h : Host τ) (c : ContextId) (classes : List ClassId) :
    declareClasses h c classes = Entity.takeAll h c (classes.map .ofClass) := by
  induction classes with
  | nil => rfl
  | cons k rest ih =>
    rw [declareClasses, List.map_cons, Entity.takeAll, Entity.take, ← ih, bind_assoc]
    refine bind_congr fun e => ?_
    dsimp only
    cases e.isStatic with
    | false => rfl
    | true =>
      rw [if_pos rfl, if_pos rfl, bind_assoc]
      refine bind_congr fun b => ?_
      cases b <;> rfl

theorem declareFunctions_eq (h : Host τ) (c : ContextId) (functions : List FunctionId) :
    declareFunctions h c functions = Entity.takeAll h c (functions.map .ofFunction) := by
  induction functions with
  | nil => rfl
  | cons f rest ih =>
    rw [declareFunctions, List.map_cons, Entity.takeAll, Entity.take, ← ih, bind_assoc]
    refine bind_congr fun e => ?_
    dsimp only
    cases e.isStatic with
    | false => rfl
    | true =>
      rw [if_pos rfl, if_pos rfl, bind_assoc]
      refine bind_congr fun b => ?_
      cases b <;> rfl

theorem declareConstants_eq (h : Host τ) (c : ContextId) (constants : List ConstantId) :
    declareConstants h c constants = Entity.takeAll h c (constants.map .ofConstant) := by
  induction constants with
  | nil => rfl
  | cons k rest ih =>
    rw [declareConstants, List.map_cons, Entity.takeAll, Entity.take, ← ih, bind_assoc]
    refine bind_congr fun b => ?_
    cases b <;> rfl

end Modules

namespace Entity

theorem takeAll_append (h : Host τ) (c : ContextId) (es fs : List Entity) :
    takeAll h c (es ++ fs) = takeAll h c es >>= fun _ => takeAll h c fs := by
  induction es with
  | nil => rfl
  | cons e rest ih => rw [List.cons_append, takeAll, takeAll, ih, bind_assoc]

end Entity

namespace Modules

theorem declareAll_apply (h : Host τ) (c : ContextId) (m : ModuleId) (w : World τ) :
    declareAll h c m w = Entity.takeAll h c (w.entities m) w := by
  rw [declareAll, bind_ok (moduleOf_apply w m), declareClasses_eq, World.entities,
    Entity.takeAll_append, Entity.takeAll_append, bind_assoc]
  simp only [declareFunctions_eq, declareConstants_eq]

def record (c : ContextId) (m : ModuleId) : Run τ Unit :=
  modify fun w => w.recordModule c m

theorem register_apply (h : Host τ) (c : ContextId) (m : ModuleId) (w : World τ) :
    register h c m w = (do Entity.takeAll h c (w.entities m); record c m : Run τ Unit) w := by
  rw [register, bind_apply, bind_apply, declareAll_apply]
  rfl

theorem entities_congr (same : v.modules.get m = w.modules.get m) :
    v.entities m = w.entities m := by
  rw [World.entities, World.entities, same]

theorem declared_congr (same : v.modules.get m = w.modules.get m)
    (kept : ∀ e ∈ w.entities m, e.profile v = e.profile w) : v.declared m = w.declared m := by
  rw [World.declared, World.declared, entities_congr same]
  refine List.filter_congr fun e member => ?_
  rw [kept e member]

theorem declare_settles (spares : h.SparesRegistries c) (usable : w.IsUsable h c)
    (declarable : ∀ e ∈ w.entities m, e.IsDeclarable h c w) :
    Entity.takeAll h c (w.entities m) w = Entity.takeAllAs h c (w.turns c m) w ∧
    (∃ before after, w.declared m = before ++ after ∧
      w.Reaches (Entity.takeAll h c (w.entities m) w).2 c ((w.names c).settleAll w before) ∧
      ((Entity.takeAll h c (w.entities m) w).1 = .ok () → after = [])) ∧
    (h.ReturnsFromHandlers c → (Entity.takeAll h c (w.entities m) w).1 = .ok ()) :=
  Entity.takeAll_settles spares (.refl w c) usable.names usable declarable

theorem register_settles (spares : h.SparesRegistries c) (returns : h.ReturnsFromHandlers c)
    (usable : w.IsUsable h c) (declarable : ∀ e ∈ w.entities m, e.IsDeclarable h c w) :
    ∃ u, register h c m w = (.ok (), u.recordModule c m) ∧
      register h c m w =
        (do Entity.takeAllAs h c (w.turns c m); record c m : Run τ Unit) w ∧
      w.Reaches u c ((w.names c).settleAll w (w.declared m)) := by
  obtain ⟨equal, ⟨before, after, parts, reaches, completes⟩, returned⟩ :=
    declare_settles spares usable declarable
  have ended := returned returns
  obtain rfl := completes ended
  rw [List.append_nil] at parts
  subst parts
  rw [register_apply, bind_apply, bind_apply, ← equal]
  rcases result : Entity.takeAll h c (w.entities m) w with ⟨outcome, u⟩
  rw [result] at ended reaches
  obtain rfl : outcome = .ok () := ended
  exact ⟨u, rfl, rfl, reaches⟩

end Modules

namespace World

variable {n : Naming}

theorem names_recordModule (w : World τ) (c : ContextId) (m : ModuleId) :
    (w.recordModule c m).names c = w.names c := by
  have declarations : ((w.recordModule c m).context c).declarations = (w.context c).declarations :=
    w.contexts.modify_keeps c c _ Context.declarations fun _ => rfl
  have scope : (w.recordModule c m).scopeOf c = w.scopeOf c :=
    w.scopeOf_updateContext c c _ fun _ => rfl
  rw [names, declarations, scope]
  rfl

theorem recordModule_keeps (w : World τ) (c : ContextId) (m : ModuleId) :
    (∀ e : Entity, e.profile (w.recordModule c m) = e.profile w) ∧
      (w.recordModule c m).modules = w.modules ∧
      (w.recordModule c m).scopes = w.scopes ∧
      ((w.recordModule c m).context c).scope = (w.context c).scope :=
  ⟨fun _ => rfl, rfl, rfl, w.contexts.modify_keeps c c _ Context.scope fun _ => rfl⟩

theorem IsUsable.recordModule (usable : w.IsUsable h c) (m : ModuleId) :
    (w.recordModule c m).IsUsable h c where
  there := (w.has_updateContext c c _).trans usable.there
  housed := by
    rw [(w.recordModule_keeps c m).2.2.2]
    exact usable.housed
  names := by
    rw [names_recordModule]
    exact usable.names.later fun x known => ⟨known, rfl⟩
  classes q k shared := by
    rw [names_recordModule] at shared
    exact (usable.classes q k shared).later rfl

theorem modules_recordModule (there : w.contexts.has c) (m : ModuleId) (name : Bytes) :
    ((w.recordModule c m).context c).modules.get? name =
      if name = (w.modules.get m).name ∧ name ≠ [] then some m
      else (w.context c).modules.get? name := by
  rw [World.recordModule, context_updateContext, if_pos ⟨rfl, there⟩]
  dsimp only
  split
  next unnamed =>
    rw [if_neg]
    rintro ⟨rfl, named⟩
    exact named (List.isEmpty_iff.1 unnamed)
  next named =>
    rw [List.isEmpty_iff] at named
    rw [Table.get?_insert]
    by_cases own : name = (w.modules.get m).name
    · rw [if_pos own, if_pos ⟨own, own ▸ named⟩]
    · rw [if_neg own, if_neg fun both => own both.1]

theorem moduleIndex_recordModule (there : w.contexts.has c) (m : ModuleId) (index : Bytes) :
    ((w.recordModule c m).context c).moduleIndex.get? index =
      if index = (w.modules.get m).internalName then some m
      else (w.context c).moduleIndex.get? index := by
  rw [World.recordModule, context_updateContext, if_pos ⟨rfl, there⟩]
  exact Table.get?_insert ..

end World

theorem World.turns_again (sound : (w.names c).IsSound w)
    (declarable : ∀ e ∈ w.entities m, e.IsDeclarable h c w)
    (entities : ∀ x : Entity, x.isKnown w → x.isKnown v ∧ x.profile v = x.profile w)
    (same : v.modules.get m = w.modules.get m)
    (settled : v.names c = (w.names c).settleAll w (w.declared m)) :
    v.turns c m = w.turns c m ∧ (v.names c).settleAll v (v.declared m) = v.names c := by
  have known : ∀ e ∈ w.declared m, e.isKnown w := fun e member =>
    (declarable e (mem_declared.1 member).1).known
  have plain : ∀ e ∈ w.declared m, e.IsPlain w := fun e member =>
    (declarable e (mem_declared.1 member).1).plain
  have kept : ∀ x : Entity, x.isKnown w → x.profile v = x.profile w := fun x there =>
    (entities x there).2
  have declared : v.declared m = w.declared m :=
    Modules.declared_congr same fun e member => kept e (declarable e member).known
  have later := sound.settleAll known
  rw [turns, turns, declared, settled, Naming.turns_congr later kept known,
    Naming.settleAll_congr later kept known]
  exact ⟨sound.turns_again known plain, sound.settleAll_again known plain⟩

/-- What a registration does to the lookups of a context. Every entity whose name is not taken
stands for itself, names keep their meaning unless they are hidden, and what is new is what the
module declares. -/
structure World.Registers (w v : World τ) (h : Host τ) (c : ContextId) (m : ModuleId) : Prop where
  before : ∀ q : Lookup, (q.find h c w).1 = .ok ((w.names c).meaning q)
  after : ∀ q : Lookup, (q.find h c v).1 = .ok ((v.names c).meaning q)
  own : ∀ e : Entity, (e, false) ∈ w.turns c m → (v.names c).meaning (e.lookup w) = some e
  kept : ∀ q x, (w.names c).meaning q = some x → (v.names c).meaning q = some x ∨
    (w.names c).Hides (v.names c) w (w.declared m) q
  new : ∀ q x, (w.names c).meaning q = none → (v.names c).meaning q = some x → x ∈ w.declared m
  byName : ∀ name, (v.context c).modules.get? name =
    if name = (w.modules.get m).name ∧ name ≠ [] then some m else (w.context c).modules.get? name
  byIndex : ∀ index, (v.context c).moduleIndex.get? index =
    if index = (w.modules.get m).internalName then some m else (w.context c).moduleIndex.get? index

namespace World

variable (usable : w.IsUsable h c) (declarable : ∀ e ∈ w.entities m, e.IsDeclarable h c w)
  (known : w.modules.has m) (reaches : w.Reaches u c ((w.names c).settleAll w (w.declared m)))
include usable declarable reaches

theorem IsUsable.registered : (u.recordModule c m).IsUsable h c := by
  refine IsUsable.recordModule (usable.settledAll (fun e member => ?_) reaches) m
  obtain ⟨there, isStatic⟩ := mem_declared.1 member
  exact ⟨(declarable e there).known, isStatic, (declarable e there).calm⟩

include known

theorem Reaches.registers : w.Registers (u.recordModule c m) h c m := by
  have there := reaches.there usable.there
  have same := (reaches.modules m known).2
  have entities : ∀ e ∈ w.declared m, e.isKnown w := fun e member =>
    (declarable e (mem_declared.1 member).1).known
  have plain : ∀ e ∈ w.declared m, e.IsPlain w := fun e member =>
    (declarable e (mem_declared.1 member).1).plain
  have names : (u.recordModule c m).names c = (w.names c).settleAll w (w.declared m) :=
    (u.names_recordModule c m).trans reaches.names
  refine ⟨Lookup.find_answers usable,
    Lookup.find_answers (usable.registered declarable reaches), fun e turn => ?_,
    fun q x stands => ?_, fun q x undefined stands => ?_, fun name => ?_, fun index => ?_⟩
  · rw [World.turns, usable.names.turns_eq entities plain] at turn
    obtain ⟨d, -, equal⟩ := List.mem_map.1 turn
    obtain ⟨rfl, untaken⟩ := Prod.mk.inj equal
    rw [names]
    exact Naming.meaning_of_own (by simpa using untaken)
  · rw [names]
    exact usable.names.settleAll_meaning entities plain stands
  · rw [names] at stands
    rcases usable.names.settleAll_unknown entities undefined with still | ⟨e, member, held⟩
    · exact nomatch stands.symm.trans still
    · rw [Naming.meaning_of_own held] at stands
      exact Option.some.inj stands ▸ member
  · rw [modules_recordModule there, same, reaches.modules_eq]
  · rw [moduleIndex_recordModule there, same, reaches.moduleIndex_eq]

end World

namespace Modules

/-- In a world as runs lead to, whose scope has classes with hooks that touch nothing, the
registration of a module raises one warning for each class, function and constant that is declared with it and
whose name stands for another entity at its turn, in their order, and no other one. The others are
what their names stand for in the end. Every other name keeps its meaning, but that of a constant of
the scope with a single spelling can be hidden. The registration of the same module again raises the
same warnings and changes no lookup. -/
theorem register_keeps_names (sound : w.Sound) (scopes : w.HasStaticScopes)
    (there : w.contexts.has c) (known : w.modules.has m) (hooks : w.HasCalmHooks h c)
    (plain : ∀ e ∈ w.entities m, (e.profile w).name.head? ≠ some 0x5c ∧
      (e.profile w).onEnter = none)
    (spares : h.SparesRegistries c) (returns : h.ReturnsFromHandlers c) :
    ∃ v, register h c m w = (.ok (), v) ∧
      register h c m w = (do Entity.takeAllAs h c (w.turns c m); record c m : Run τ Unit) w ∧
      w.Registers v h c m ∧
      ∃ x, register h c m v = (.ok (), x) ∧
        register h c m v = (do Entity.takeAllAs h c (w.turns c m); record c m : Run τ Unit) v ∧
        (∀ q : Lookup, (q.find h c x).1 = (q.find h c v).1) ∧
        (∀ name, (x.context c).modules.get? name = (v.context c).modules.get? name) ∧
        ∀ index, (x.context c).moduleIndex.get? index = (v.context c).moduleIndex.get? index := by
  have usable := sound.usable scopes there hooks
  have declarable : ∀ e ∈ w.entities m, e.IsDeclarable h c w := fun e member =>
    ⟨sound.knows_entities member, (plain e member).1, fun hook own => by
      rw [(plain e member).2] at own
      cases own⟩
  obtain ⟨u, registered, warned, reaches⟩ := register_settles spares returns usable declarable
  have registers := reaches.registers usable declarable known
  have usable' := usable.registered declarable reaches
  have same := (reaches.modules m known).2
  have entities : (u.recordModule c m).entities m = w.entities m := entities_congr same
  -- each turn of the second registration finds its name taken or not as the first one has left it,
  -- and settles nothing anew
  obtain ⟨turns, again⟩ := World.turns_again (v := u.recordModule c m) usable.names declarable
    reaches.entities same ((u.names_recordModule c m).trans reaches.names)
  have declarable' : ∀ e ∈ (u.recordModule c m).entities m,
      e.IsDeclarable h c (u.recordModule c m) := fun e member =>
    (declarable e (entities ▸ member)).later
      (reaches.entities e (declarable e (entities ▸ member)).known)
  obtain ⟨t, registered', warned', reaches'⟩ := register_settles spares returns usable' declarable'
  have registers' := reaches'.registers usable' declarable' (reaches.modules m known).1
  rw [turns] at warned'
  refine ⟨_, registered, warned, registers, _, registered', warned', fun q => ?_, fun name => ?_,
    fun index => ?_⟩
  · rw [registers'.after, registers.after, World.names_recordModule, reaches'.names, again]
  · rw [registers'.byName, registers.byName, show (u.recordModule c m).modules.get m = _ from same]
    split <;> rfl
  · rw [registers'.byIndex, registers.byIndex,
      show (u.recordModule c m).modules.get m = _ from same]
    split <;> rfl

end Modules

theorem Host.idle_spares (c : ContextId) : (Host.idle : Host τ).SparesRegistries c :=
  ⟨fun _ _ w => .refl w c, fun _ _ w => .refl w c, fun _ _ _ w => .refl w c⟩

theorem Host.idle_returns (c : ContextId) : (Host.idle : Host τ).ReturnsFromHandlers c :=
  ⟨fun _ _ w => ⟨_, w, rfl⟩, fun _ _ w => ⟨_, w, rfl⟩, fun _ _ _ w => ⟨_, w, rfl⟩⟩

def contested : Recorded Unit :=
  ((Code.each () (oneContext ++ [newPlainClass "Foo", .act ⟨0⟩ (.registerClass ⟨0⟩),
      .newConstant ⟨"FOO", .bool true, true, {}⟩, .declareConstant ⟨0⟩ ⟨0⟩,
      newPlainClass "foo", newPlainClass "bar", newPlainClass "BAR",
      .newFunction ⟨"baz", false, {}, none⟩, .newConstant ⟨"foo", .bool false, false, {}⟩,
      .newModule { (default : Module) with
        name := "m", internalName := "i", classes := [⟨1⟩, ⟨2⟩, ⟨3⟩], functions := [⟨0⟩],
        constants := [⟨1⟩] }]) : Code Unit Unit).run (stranded.host 1)
    (.start (FileTree.make "/") ())).2

theorem register_keeps_names_contested :
    contested.turns ⟨0⟩ ⟨0⟩ = [(.ofClass ⟨1⟩, true), (.ofClass ⟨2⟩, false), (.ofClass ⟨3⟩, true),
      (.ofConstant ⟨1⟩, false)] ∧
    ∃ v, Modules.register .idle ⟨0⟩ ⟨0⟩ contested = (.ok (), v) ∧
      contested.Registers v .idle ⟨0⟩ ⟨0⟩ := by
  have plain : ∀ e ∈ contested.entities ⟨0⟩, (e.profile contested).name.head? ≠ some 0x5c ∧
      (e.profile contested).onEnter = none := by decide +kernel
  have sound : contested.Sound := (stranded.course 1 _ _ ()).sound (World.start_sound _ ())
  have scopes : contested.HasStaticScopes := (stranded.staticScopes 1 _ _ ()).1
  have hooks : contested.HasCalmHooks .idle ⟨0⟩ := fun _ _ _ _ _ w => ⟨w, rfl, .refl w _⟩
  obtain ⟨v, registered, -, registers, -⟩ :=
    Modules.register_keeps_names sound scopes (by decide +kernel) (by decide +kernel) hooks plain
      (Host.idle_spares _) (Host.idle_returns _)
  exact ⟨by decide +kernel, v, registered, registers⟩

theorem register_hides_constant :
    (.ofConstant ⟨1⟩, true) ∉ contested.turns ⟨0⟩ ⟨0⟩ ∧
    ∃ v, Modules.register .idle ⟨0⟩ ⟨0⟩ contested = (.ok (), v) ∧
      ((Lookup.ofConstant "FOO").find .idle ⟨0⟩ contested).1 = .ok (some (.ofConstant ⟨0⟩)) ∧
      ((Lookup.ofConstant "FOO").find .idle ⟨0⟩ v).1 = .ok (some (.ofConstant ⟨1⟩)) := by
  obtain ⟨untaken, ended, before, after⟩ :
      (.ofConstant ⟨1⟩, true) ∉ contested.turns ⟨0⟩ ⟨0⟩ ∧
      (Modules.register .idle ⟨0⟩ ⟨0⟩ contested).1.toOption = some () ∧
      ((Lookup.ofConstant "FOO").find .idle ⟨0⟩ contested).1.toOption =
        some (some (.ofConstant ⟨0⟩)) ∧
      ((Lookup.ofConstant "FOO").find .idle ⟨0⟩
        (Modules.register .idle ⟨0⟩ ⟨0⟩ contested).2).1.toOption =
          some (some (.ofConstant ⟨1⟩)) := by
    decide +kernel
  exact ⟨untaken, _, eq_ok_pair_of_toOption ended, eq_ok_of_toOption before,
    eq_ok_of_toOption after⟩

end ScriptHost
