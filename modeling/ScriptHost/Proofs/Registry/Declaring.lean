import ScriptHost.Proofs.Registry.Meaning
import ScriptHost.Proofs.Registry.StaticScopes

set_option autoImplicit false

namespace ScriptHost

open Run

variable {σ τ : Type} {w u v : World τ} {c : ContextId} {h : Host τ} {n : Naming} {e x : Entity}
  {p q : Lookup}

def Context.catalogue (x : Context) : Table ModuleId × Table ModuleId := (x.modules, x.moduleIndex)

def Scope.catalogue (s : Scope) : Table ModuleId × Table ModuleId × Bool :=
  (s.modules, s.moduleIndex, s.isImporting)

def Context.adopt (x : Context) (w : World τ) : Entity → Context
  | .ofClass k => { x with classes := x.classes.insert (w.classes.get k).lowerName k }
  | .ofFunction f => { x with functions := x.functions.insert (w.functions.get f).lowerName f }
  | .ofConstant k => { x with constants := x.constants.add (w.constants.get k) k }

def Scope.adopt (s : Scope) (w : World τ) : Entity → Scope
  | .ofClass k => { s with classes := s.classes.insert (w.classes.get k).lowerName k }
  | .ofFunction f => { s with functions := s.functions.insert (w.functions.get f).lowerName f }
  | .ofConstant k => { s with constants := s.constants.add (w.constants.get k) k }

theorem Context.declarations_adopt (x : Context) (w : World τ) (e : Entity) :
    (x.adopt w e).declarations = x.declarations.insert w e := by
  cases e <;> rfl

theorem Scope.declarations_adopt (s : Scope) (w : World τ) (e : Entity) :
    (s.adopt w e).declarations = s.declarations.insert w e := by
  cases e <;> rfl

namespace World

structure KeepsEntities (w v : World τ) (c : ContextId) : Prop where
  entities : ∀ e : Entity, e.isKnown w → e.isKnown v ∧ e.profile v = e.profile w
  modules : ∀ m, w.modules.has m → v.modules.has m ∧ v.modules.get m = w.modules.get m
  there : w.contexts.has c → v.contexts.has c
  scope : (v.context c).scope = (w.context c).scope
  housed : w.scopes.has (w.context c).scope → v.scopes.has (v.context c).scope
  own : (v.context c).catalogue = (w.context c).catalogue
  shared : (v.scopeOf c).catalogue = (w.scopeOf c).catalogue

structure Reaches (w v : World τ) (c : ContextId) (n : Naming) : Prop
    extends w.KeepsEntities v c where
  names : v.names c = n

abbrev Upholds (w v : World τ) (c : ContextId) : Prop := w.Reaches v c (w.names c)

theorem KeepsEntities.refl (w : World τ) (c : ContextId) : w.KeepsEntities w c :=
  ⟨fun _ known => ⟨known, rfl⟩, fun _ known => ⟨known, rfl⟩, id, rfl, id, rfl, rfl⟩

theorem KeepsEntities.trans (first : u.KeepsEntities v c) (rest : v.KeepsEntities w c) :
    u.KeepsEntities w c where
  entities e known := by
    obtain ⟨known', same⟩ := first.entities e known
    exact (rest.entities e known').imp_right (·.trans same)
  modules m known := by
    obtain ⟨known', same⟩ := first.modules m known
    exact (rest.modules m known').imp_right (·.trans same)
  there := rest.there ∘ first.there
  scope := rest.scope.trans first.scope
  housed := rest.housed ∘ first.housed
  own := rest.own.trans first.own
  shared := rest.shared.trans first.shared

theorem KeepsEntities.modules_eq (kept : w.KeepsEntities v c) :
    (v.context c).modules = (w.context c).modules :=
  congrArg Prod.fst kept.own

theorem KeepsEntities.moduleIndex_eq (kept : w.KeepsEntities v c) :
    (v.context c).moduleIndex = (w.context c).moduleIndex :=
  congrArg Prod.snd kept.own

theorem Reaches.refl (w : World τ) (c : ContextId) : w.Upholds w c :=
  ⟨.refl w c, rfl⟩

theorem Reaches.trans (first : u.Reaches v c n) (rest : v.Upholds w c) : u.Reaches w c n :=
  ⟨first.toKeepsEntities.trans rest.toKeepsEntities, rest.names.trans first.names⟩

def keep (w : World τ) (c : ContextId) (e : Entity) : World τ :=
  w.updateContext c (·.adopt w e)

def share (w : World τ) (c : ContextId) (e : Entity) : World τ :=
  w.updateScope (w.context c).scope (·.adopt w e)

theorem scopeOf_keep (w : World τ) (c : ContextId) (e : Entity) :
    (w.keep c e).scopeOf c = w.scopeOf c :=
  w.scopeOf_updateContext c c _ fun _ => by cases e <;> rfl

theorem context_keep (there : w.contexts.has c) (e : Entity) :
    ((w.keep c e).context c).declarations = (w.context c).declarations.insert w e := by
  rw [keep, context_updateContext, if_pos ⟨rfl, there⟩, Context.declarations_adopt]

theorem scopeOf_share (housed : w.scopes.has (w.context c).scope) (e : Entity) :
    (w.share c e).scopeOf c = (w.scopeOf c).adopt w e :=
  w.scopeOf_updateScope c _ housed

theorem keepsEntities_keep (w : World τ) (c : ContextId) (e : Entity) :
    w.KeepsEntities (w.keep c e) c where
  entities _ known := ⟨known, rfl⟩
  modules _ known := ⟨known, rfl⟩
  there there := (w.has_updateContext c c _).trans there
  scope := w.contexts.modify_keeps c c _ Context.scope fun _ => by cases e <;> rfl
  housed housed := by
    rwa [show ((w.keep c e).context c).scope = (w.context c).scope from
      w.contexts.modify_keeps c c _ Context.scope fun _ => by cases e <;> rfl]
  own := w.contexts.modify_keeps c c _ Context.catalogue fun _ => by cases e <;> rfl
  shared := by rw [scopeOf_keep]

theorem keepsEntities_share (w : World τ) (c : ContextId) (e : Entity) :
    w.KeepsEntities (w.share c e) c where
  entities _ known := ⟨known, rfl⟩
  modules _ known := ⟨known, rfl⟩
  there := id
  scope := rfl
  housed housed := (Pool.has_modify ..).trans housed
  own := rfl
  shared := w.scopes.modify_keeps _ _ _ Scope.catalogue fun _ => by cases e <;> rfl

theorem reaches_keep (there : w.contexts.has c) (answers : x.AnswersTo w p)
    (absent : (w.names c).own p = none) :
    w.Reaches (w.keep c x) c { w.names c with own := extend (w.names c).own w x } where
  toKeepsEntities := w.keepsEntities_keep c x
  names := by
    rw [World.names, context_keep there, scopeOf_keep, Declarations.find_insert answers absent]
    rfl

theorem reaches_share_keep (there : w.contexts.has c) (housed : w.scopes.has (w.context c).scope)
    (answers : x.AnswersTo w p) (absent : (w.names c).own p = none)
    (nowhere : (w.names c).shared p = none) : w.Reaches ((w.share c x).keep c x) c
      ⟨extend (w.names c).own w x, extend (w.names c).shared w x⟩ where
  toKeepsEntities := (w.keepsEntities_share c x).trans ((w.share c x).keepsEntities_keep c x)
  names := by
    have own : (((w.share c x).keep c x).context c).declarations =
        (w.context c).declarations.insert w x := context_keep (w := w.share c x) there x
    rw [World.names, own, scopeOf_keep, scopeOf_share housed, Scope.declarations_adopt,
      Declarations.find_insert answers absent, Declarations.find_insert answers nowhere]
    rfl

end World

def Host.Calms (h : Host τ) (c : ContextId) (hook : Callback) : Prop :=
  ∀ w, ∃ v, h.enterClass hook c w = (.ok none, v) ∧ w.Upholds v c

structure Entity.IsReady (e : Entity) (h : Host τ) (c : ContextId) (w : World τ) : Prop where
  isStatic : (e.profile w).isStatic
  calm : ∀ hook, (e.profile w).onEnter = some hook → h.Calms c hook

theorem Entity.IsReady.later (ready : e.IsReady h c w) (same : e.profile v = e.profile w) :
    e.IsReady h c v :=
  ⟨same ▸ ready.isStatic, fun hook own => ready.calm hook (same ▸ own)⟩

structure World.IsUsable (w : World τ) (h : Host τ) (c : ContextId) : Prop where
  there : w.contexts.has c
  housed : w.scopes.has (w.context c).scope
  names : (w.names c).IsSound w
  classes : ∀ q k, (w.names c).shared q = some (.ofClass k) → (Entity.ofClass k).IsReady h c w

def World.HasCalmHooks (w : World τ) (h : Host τ) (c : ContextId) : Prop :=
  ∀ q k hook, (w.names c).shared q = some (.ofClass k) → (w.classes.get k).onEnter = some hook →
    h.Calms c hook

theorem World.Sound.usable (sound : w.Sound) (scopes : w.HasStaticScopes)
    (there : w.contexts.has c) (calm : w.HasCalmHooks h c) : w.IsUsable h c where
  there := there
  housed := sound.housed c there
  names := sound.names c
  classes q k shared := by
    refine ⟨?_, fun hook => calm q k hook shared⟩
    cases q with
    | ofClass name =>
      obtain ⟨j, found, same⟩ := Option.map_eq_some_iff.1 shared
      cases same
      exact scopes.scopeOf c _ k found
    | ofFunction name =>
      obtain ⟨_, -, same⟩ := Option.map_eq_some_iff.1 shared
      cases same
    | ofConstant name =>
      obtain ⟨_, -, same⟩ := Option.map_eq_some_iff.1 shared
      cases same

namespace World.IsUsable

theorem reached (usable : w.IsUsable h c) (reaches : w.Reaches v c n) (sound : n.IsSound w)
    (classes : ∀ q k, n.shared q = some (.ofClass k) → (Entity.ofClass k).IsReady h c w) :
    v.IsUsable h c where
  there := reaches.there usable.there
  housed := reaches.housed usable.housed
  names := by
    rw [reaches.names]
    exact sound.later reaches.entities
  classes q k shared := by
    rw [reaches.names] at shared
    exact (classes q k shared).later (reaches.entities _ (sound.shared q _ shared).1).2

theorem settledAll (usable : w.IsUsable h c) {es : List Entity}
    (each : ∀ e ∈ es, e.isKnown w ∧ e.IsReady h c w)
    (reaches : w.Reaches v c ((w.names c).settleAll w es)) : v.IsUsable h c := by
  refine usable.reached reaches (usable.names.settleAll fun e member => (each e member).1)
    fun q k shared => ?_
  rcases Naming.settleAll_shared shared with before | member
  · exact usable.classes q k before
  · exact (each _ member).2

end World.IsUsable

structure World.Draws {α : Type} (w : World τ) (c : ContextId) (entity : α → Entity) (q : Lookup)
    (find : Run τ (Option α)) : Prop where
  nowhere : (w.names c).meaning q = none → find w = (.ok none, w)
  somewhere : ∀ x, (w.names c).meaning q = some x → ∃ a v, entity a = x ∧
    find w = (.ok (some a), v) ∧ w.Reaches v c ((w.names c).draw w q)

namespace World.Draws

variable {α : Type} {entity : α → Entity} {find : Run τ (Option α)} {a : α}

theorem of_held (held : (w.names c).own q = some (entity a)) (found : find w = (.ok (some a), w)) :
    w.Draws c entity q find where
  nowhere nothing := by
    rw [Naming.meaning_of_own held] at nothing
    cases nothing
  somewhere x stands := by
    rw [Naming.meaning_of_own held] at stands
    refine ⟨a, w, Option.some.inj stands, found, ?_⟩
    rw [Naming.draw_of_own held]
    exact .refl w c

theorem of_shared (absent : (w.names c).own q = none)
    (shared : (w.names c).shared q = some (entity a)) (found : find w = (.ok (some a), v))
    (reaches : w.Reaches v c { w.names c with own := extend (w.names c).own w (entity a) }) :
    w.Draws c entity q find where
  nowhere nothing := by simp [Naming.meaning, absent, shared] at nothing
  somewhere x stands := by
    have same : entity a = x := by simpa [Naming.meaning, absent, shared] using stands
    refine ⟨a, v, same, found, ?_⟩
    rwa [Naming.draw_of_shared absent shared]

theorem of_nowhere (absent : (w.names c).own q = none) (unshared : (w.names c).shared q = none)
    (found : find w = (.ok none, w)) : w.Draws c entity q find where
  nowhere _ := found
  somewhere x stands := by simp [Naming.meaning, absent, unshared] at stands

end World.Draws

namespace ClassRegistry

variable {k : ClassId}

theorem enter_upholds (calm : ∀ hook, (w.classes.get k).onEnter = some hook → h.Calms c hook) :
    ∃ v, enter h c k w = (.ok (), v) ∧ (w.insertClass c k).Upholds v c := by
  cases own : (w.classes.get k).onEnter with
  | none => exact ⟨_, enter_hookless h c w own, .refl _ c⟩
  | some hook =>
    obtain ⟨v, called, upholds⟩ := calm hook own (w.insertClass c k)
    exact ⟨v, by rw [enter_hook h c w own, bind_ok called]; rfl, upholds⟩

theorem find_draws (usable : w.IsUsable h c) (name : Bytes) :
    w.Draws c .ofClass (.ofClass name) (find h c name) := by
  cases held : (w.context c).classes.get? (withoutSeparator name).lower with
  | some k => exact .of_held (congrArg (Option.map _) held) (find_loaded h c w held)
  | none =>
    have absent : (w.names c).own (.ofClass name) = none := congrArg (Option.map _) held
    cases shared : (w.scopeOf c).classes.get? (withoutSeparator name).lower with
    | none =>
      refine .of_nowhere absent (congrArg (Option.map _) shared) ?_
      rw [find, findLower_absent h held, shared]
      rfl
    | some k =>
      have behind : (w.names c).shared (.ofClass name) = some (.ofClass k) :=
        congrArg (Option.map _) shared
      have ready := usable.classes _ k behind
      obtain ⟨v, entered, upholds⟩ := enter_upholds (h := h) ready.calm
      refine .of_shared absent behind (v := v) ?_ ((World.reaches_keep usable.there
        (usable.names.shared _ _ behind).2 absent).trans upholds)
      rw [find, findLower_absent h held, shared, Option.filter_some,
        if_pos (show (w.classes.get k).isStatic from ready.isStatic)]
      exact bind_ok entered

end ClassRegistry

namespace FunctionRegistry

theorem fetch_absent {name : Bytes}
    (absent : (w.context c).functions.get? (withoutSeparator name).lower = none) :
    fetch c name w = ((w.scopeOf c).functions.get? (withoutSeparator name).lower).elim
      (.ok none, w) fun f => (.ok (some f), w.updateContext c fun x =>
        { x with functions := x.functions.insert (withoutSeparator name).lower f }) := by
  rw [fetch, bind_ok (context_apply w c), absent]
  dsimp only
  rw [bind_ok (scope_apply w _)]
  unfold World.scopeOf
  cases (w.scopes.get (w.context c).scope).functions.get? (withoutSeparator name).lower <;> rfl

theorem fetch_draws (usable : w.IsUsable h c) (name : Bytes) :
    w.Draws c .ofFunction (.ofFunction name) (fetch c name) := by
  cases held : (w.context c).functions.get? (withoutSeparator name).lower with
  | some f => exact .of_held (congrArg (Option.map _) held) (fetch_loaded held)
  | none =>
    have absent : (w.names c).own (.ofFunction name) = none := congrArg (Option.map _) held
    have fetched := fetch_absent held
    cases shared : (w.scopeOf c).functions.get? (withoutSeparator name).lower with
    | none =>
      rw [shared] at fetched
      exact .of_nowhere absent (congrArg (Option.map _) shared) fetched
    | some f =>
      have behind : (w.names c).shared (.ofFunction name) = some (.ofFunction f) :=
        congrArg (Option.map _) shared
      have answers := (usable.names.shared _ _ behind).2
      rw [shared, ← Entity.ofFunction_answersTo.1 answers] at fetched
      exact .of_shared absent behind fetched (World.reaches_keep usable.there answers absent)

end FunctionRegistry

theorem ConstantRegistry.find_draws (usable : w.IsUsable h c) (name : Bytes) :
    w.Draws c .ofConstant (.ofConstant name) (find c name) := by
  obtain ⟨k, loaded, same⟩ | ⟨absent, nowhere, same⟩ | ⟨k, absent, shared, same⟩ :=
    find_cases c name w
  · exact .of_held (congrArg (Option.map _) loaded) same
  · exact .of_nowhere (congrArg (Option.map _) absent) (congrArg (Option.map _) nowhere) same
  · have behind : (w.names c).shared (.ofConstant name) = some (.ofConstant k) :=
      congrArg (Option.map _) shared
    have unheld : (w.names c).own (.ofConstant name) = none := congrArg (Option.map _) absent
    exact .of_shared unheld behind same (World.reaches_keep usable.there
      (usable.names.shared _ _ behind).2 unheld)

def Lookup.find (h : Host τ) (c : ContextId) : Lookup → Run τ (Option Entity)
  | .ofClass name => return (← ClassRegistry.find h c name).map .ofClass
  | .ofFunction name => return (← FunctionRegistry.fetch c name).map .ofFunction
  | .ofConstant name => return (← ConstantRegistry.find c name).map .ofConstant

theorem World.Draws.answers {α : Type} {entity : α → Entity} {find : Run τ (Option α)}
    (draws : w.Draws c entity q find) :
    ((return (← find).map entity : Run τ (Option Entity)) w).1 = .ok ((w.names c).meaning q) := by
  cases stands : (w.names c).meaning q with
  | none => rw [bind_ok (draws.nowhere stands)]; rfl
  | some x =>
    obtain ⟨a, v, rfl, found, -⟩ := draws.somewhere x stands
    rw [bind_ok found]
    rfl

theorem Lookup.find_answers (usable : w.IsUsable h c) (q : Lookup) :
    (q.find h c w).1 = .ok ((w.names c).meaning q) := by
  cases q with
  | ofClass name => exact (ClassRegistry.find_draws usable name).answers
  | ofFunction name => exact (FunctionRegistry.fetch_draws usable name).answers
  | ofConstant name => exact (ConstantRegistry.find_draws usable name).answers

def World.Declares (w : World τ) (c : ContextId) (e : Entity) (declare : Run τ Bool) : Prop :=
  ∃ v, declare w = (.ok (decide ((w.names c).standing w e = e)), v) ∧
    w.Reaches v c ((w.names c).settle w e)

theorem World.Draws.declares {α : Type} [DecidableEq α] {entity : α → Entity} {a : α}
    {find : Run τ (Option α)} {declare : Run τ Bool} (usable : w.IsUsable h c)
    (plain : (entity a).IsPlain w) (injective : ∀ b, entity b = entity a → b = a)
    (draws : w.Draws c entity ((entity a).lookup w) find)
    (found : ∀ b v, find w = (.ok (some b), v) → declare w = (.ok (decide (b = a)), v))
    (entered : (w.names c).shared ((entity a).lookup w) = none → find w = (.ok none, w) →
      ∃ v, declare w = (.ok true, v) ∧ ((w.share c (entity a)).keep c (entity a)).Upholds v c) :
    w.Declares c (entity a) declare := by
  cases stands : (w.names c).meaning ((entity a).lookup w) with
  | none =>
    obtain ⟨absent, unshared⟩ := Option.or_eq_none_iff.1 stands
    obtain ⟨v, declared, upholds⟩ := entered unshared (draws.nowhere stands)
    refine ⟨v, by simp [declared, Naming.standing, stands], ?_⟩
    rw [Naming.settle_of_unknown absent unshared]
    exact (World.reaches_share_keep usable.there usable.housed
      (Entity.answersTo_lookup plain) absent unshared).trans upholds
  | some x =>
    obtain ⟨b, v, rfl, looked, reaches⟩ := draws.somewhere x stands
    have same : entity b = entity a ↔ b = a := ⟨injective b, congrArg entity⟩
    refine ⟨v, ?_, ?_⟩
    · rw [found b v looked]
      simp [Naming.standing, stands, same]
    · simpa only [Naming.settle, stands] using reaches

theorem Scope.enter_absent {α : Type} {t : Table α} {key : Bytes} (a : α)
    (absent : t.get? key = none) : enter t key a = (a, t.insert key a) := by
  rw [enter, absent]

theorem ClassRegistry.declare_declares (usable : w.IsUsable h c) {k : ClassId}
    (ready : (Entity.ofClass k).IsReady h c w) (plain : (Entity.ofClass k).IsPlain w) :
    w.Declares c (.ofClass k) (declare h c k) := by
  refine (find_draws usable (w.classes.get k).name).declares usable plain (fun _ same => ?_)
    (fun j v found => ?_) fun unshared nowhere => ?_
  · cases same
    rfl
  · rw [declare, bind_ok (classOf_apply w k), bind_ok found]
    rfl
  · have free : (w.scopeOf c).classes.get? (w.classes.get k).lowerName = none := by
      have nothing := Option.map_eq_none_iff.1 unshared
      rwa [withoutSeparator_of_plain plain] at nothing
    have shared : w.share c (.ofClass k) = w.updateScope (w.context c).scope fun x =>
        { x with classes := (w.scopeOf c).classes.insert (w.classes.get k).lowerName k } :=
      w.updateScope_congr _ rfl
    obtain ⟨v, entered, upholds⟩ := enter_upholds (w := w.share c (.ofClass k)) (h := h) ready.calm
    refine ⟨v, ?_, upholds⟩
    rw [declare, bind_ok (classOf_apply w k), bind_ok nowhere]
    dsimp only
    rw [bind_ok (classOf_apply w k), if_pos (show (w.classes.get k).isStatic from ready.isStatic),
      bind_ok (scopeOf_apply w c), bind_ok (scope_apply w _), ← World.scopeOf,
      Scope.enter_absent k free]
    dsimp only
    rw [if_neg (by simp), bind_ok (modifyScope_apply w _ _), ← shared]
    exact bind_ok entered

theorem FunctionRegistry.declare_declares (usable : w.IsUsable h c) {f : FunctionId}
    (isStatic : (w.functions.get f).isStatic) (plain : (Entity.ofFunction f).IsPlain w) :
    w.Declares c (.ofFunction f) (declare c f) := by
  refine (fetch_draws usable (w.functions.get f).name).declares usable plain (fun _ same => ?_)
    (fun j v found => ?_) fun unshared nowhere => ?_
  · cases same
    rfl
  · rw [declare, bind_ok (functionOf_apply w f), bind_ok found]
    rfl
  · have free : (w.scopeOf c).functions.get? (w.functions.get f).lowerName = none := by
      have nothing := Option.map_eq_none_iff.1 unshared
      rwa [withoutSeparator_of_plain plain] at nothing
    have shared : w.share c (.ofFunction f) = w.updateScope (w.context c).scope fun x =>
        { x with functions := (w.scopeOf c).functions.insert (w.functions.get f).lowerName f } :=
      w.updateScope_congr _ rfl
    refine ⟨_, ?_, .refl _ c⟩
    rw [declare, bind_ok (functionOf_apply w f), bind_ok nowhere]
    dsimp only
    rw [if_pos isStatic, bind_ok (scopeOf_apply w c), bind_ok (scope_apply w _), ← World.scopeOf,
      Scope.enter_absent f free]
    dsimp only
    rw [if_neg (by simp), bind_ok (modifyScope_apply w _ _), ← shared]
    rfl

theorem ConstantRegistry.declare_declares (usable : w.IsUsable h c) {k : ConstantId}
    (plain : (Entity.ofConstant k).IsPlain w) : w.Declares c (.ofConstant k) (declare c k) := by
  refine (find_draws usable (w.constants.get k).name).declares usable plain (fun _ same => ?_)
    (fun j v found => ?_) fun unshared nowhere => ?_
  · cases same
    rfl
  · rw [declare, bind_ok (constantOf_apply w k), bind_ok found]
    rfl
  · have free : (w.scopeOf c).constants.find? (w.constants.get k).name = none := by
      have nothing := Option.map_eq_none_iff.1 unshared
      rwa [withoutSeparator_of_plain plain] at nothing
    have shared : w.share c (.ofConstant k) = w.updateScope (w.context c).scope fun x =>
        { x with constants := (w.scopeOf c).constants.add (w.constants.get k) k } :=
      w.updateScope_congr _ rfl
    have entry : enterSet (w.scopeOf c).constants (w.constants.get k) k =
        (k, (w.scopeOf c).constants.add (w.constants.get k) k) := by
      rw [enterSet, free]
    refine ⟨_, ?_, .refl _ c⟩
    rw [declare, bind_ok (constantOf_apply w k), bind_ok nowhere]
    dsimp only
    rw [bind_ok (scopeOf_apply w c), bind_ok (scope_apply w _), ← World.scopeOf, entry]
    dsimp only
    rw [if_neg (by simp), bind_ok (modifyScope_apply w _ _), ← shared]
    rfl

def Entity.declare (h : Host τ) (c : ContextId) : Entity → Run τ Bool
  | .ofClass k => ClassRegistry.declare h c k
  | .ofFunction f => FunctionRegistry.declare c f
  | .ofConstant k => ConstantRegistry.declare c k

theorem Entity.declare_declares (usable : w.IsUsable h c) (ready : e.IsReady h c w)
    (plain : e.IsPlain w) : w.Declares c e (e.declare h c) := by
  cases e with
  | ofClass k => exact ClassRegistry.declare_declares usable ready plain
  | ofFunction f => exact FunctionRegistry.declare_declares usable ready.isStatic plain
  | ofConstant k => exact ConstantRegistry.declare_declares usable plain

end ScriptHost
