import ScriptHost.Proofs.Modules.Conflicts
import ScriptHost.Proofs.Registry.Drawing

set_option autoImplicit false

namespace ScriptHost

open Run

variable {τ : Type} {w u v : World τ} {c d : ContextId} {h : Host τ} {s : ScopeId} {m : ModuleId}

structure Host.SparesAll (h : Host τ) : Prop where
  enterClass : ∀ k c w, ∃ v, h.enterClass k c w = (.ok none, v) ∧ ∀ d, w.Upholds v d
  handleError : ∀ k c m, (h.handleError k c m).Returns ∧ ∀ d, (h.handleError k c m).Spares d
  reportError : ∀ k c m, (h.reportError k c m).Returns ∧ ∀ d, (h.reportError k c m).Spares d
  filterOutput : ∀ k c chunk mode, (h.filterOutput k c chunk mode).Returns ∧
    ∀ d, (h.filterOutput k c chunk mode).Spares d

namespace Host.SparesAll

variable (all : h.SparesAll)
include all

theorem calms (c : ContextId) (hook : Callback) : h.Calms c hook := fun w => by
  obtain ⟨v, called, upholds⟩ := all.enterClass hook c w
  exact ⟨v, called, upholds c⟩

theorem spares (c : ContextId) : h.SparesRegistries c :=
  ⟨fun k m => (all.handleError k c m).2 c, fun k m => (all.reportError k c m).2 c,
    fun k chunk mode => (all.filterOutput k c chunk mode).2 c⟩

theorem returns (c : ContextId) : h.ReturnsFromHandlers c :=
  ⟨fun k m => (all.handleError k c m).1, fun k m => (all.reportError k c m).1,
    fun k chunk mode => (all.filterOutput k c chunk mode).1⟩

end Host.SparesAll

structure World.Confines (w v : World τ) (c : ContextId) : Prop where
  there : ∀ d, w.contexts.has d → v.contexts.has d
  scope : ∀ d, (v.context d).scope = (w.context d).scope
  own : ∀ d, d ≠ c → (v.names d).own = (w.names d).own

namespace World.Confines

theorem refl (w : World τ) (c : ContextId) : w.Confines w c :=
  ⟨fun _ => id, fun _ => rfl, fun _ _ => rfl⟩

theorem trans (first : u.Confines v c) (rest : v.Confines w c) : u.Confines w c :=
  ⟨fun d => rest.there d ∘ first.there d, fun d => (rest.scope d).trans (first.scope d),
    fun d other => (rest.own d other).trans (first.own d other)⟩

theorem of_upholds (upholds : ∀ d, w.Upholds v d) (c : ContextId) : w.Confines v c :=
  ⟨fun d => (upholds d).there, fun d => (upholds d).scope,
    fun d _ => congrArg Naming.own (upholds d).names⟩

theorem updateContext (w : World τ) (c : ContextId) (f : Context → Context)
    (keeps : ∀ x, (f x).scope = x.scope) : w.Confines (w.updateContext c f) c where
  there d there := (w.has_updateContext c d f).trans there
  scope d := w.contexts.modify_keeps c d f Context.scope keeps
  own d other := by
    rw [names, context_updateContext, if_neg fun both => other both.1.symm]
    rfl

end World.Confines

def Run.Confines {α : Type} (c : ContextId) (m : Run τ α) : Prop :=
  ∀ w : World τ, w.Confines (m w).2 c

namespace Run.Confines

variable {α β : Type}

theorem of_read {m : Run τ α} (same : ∀ w, (m w).2 = w) : Run.Confines c m := fun w => by
  rw [same]
  exact .refl w c

theorem pure (a : α) : Run.Confines c (Pure.pure a : Run τ α) :=
  .of_read fun _ => rfl

theorem bind {m : Run τ α} {f : α → Run τ β} (first : Run.Confines c m)
    (rest : ∀ a, Run.Confines c (f a)) : Run.Confines c (m >>= f) := fun w => by
  have confined := first w
  rw [bind_apply]
  rcases result : m w with ⟨signal | a, u⟩ <;> rw [result] at confined
  · exact confined
  · exact confined.trans (rest a u)

theorem of_spares {m : Run τ α} (spares : ∀ d, m.Spares d) : Run.Confines c m := fun w =>
  .of_upholds (fun d => spares d w) c

theorem own {f : Context → Context} (keeps : ∀ x, (f x).scope = x.scope) :
    Run.Confines c (modifyContext c f : Run τ Unit) :=
  fun w => .updateContext w c f keeps

theorem shared (s : ScopeId) (f : Scope → Scope) : Run.Confines c (modifyScope s f : Run τ Unit) :=
  fun _ => ⟨fun _ => id, fun _ => rfl, fun _ _ => rfl⟩

theorem isClosed (c : ContextId) : Run.IsClosed c fun α (m : Run τ α) => Run.Confines c m where
  pure := .pure
  bind := .bind
  context := .of_read fun _ => rfl
  modifyStack _ _ := .own fun _ => rfl
  onSink _ _ := ⟨fun _ => id, fun _ => rfl, fun _ _ => rfl⟩

end Run.Confines

section Registries

variable (all : h.SparesAll) (c : ContextId)
include all

theorem ClassRegistry.enter_confines (k : ClassId) : Run.Confines c (enter h c k) := fun w => by
  have inserted : w.Confines (w.insertClass c k) c := .updateContext w c _ fun _ => rfl
  cases own : (w.classes.get k).onEnter with
  | none => rwa [enter_hookless h c w own]
  | some hook =>
    obtain ⟨v, called, upholds⟩ := all.enterClass hook c (w.insertClass c k)
    rw [enter_hook h c w own, bind_ok called]
    exact inserted.trans (.of_upholds upholds c)

theorem ClassRegistry.find_confines (name : Bytes) : Run.Confines c (find h c name) := by
  refine .bind (.of_read fun _ => rfl) fun x => ?_
  split
  next => exact .pure _
  next =>
    refine .bind (.of_read fun _ => rfl) fun s => ?_
    split
    next k _ =>
      refine .bind (.of_read fun _ => rfl) fun e => ?_
      split
      next => exact .pure _
      next => exact .bind (enter_confines all c k) fun _ => .pure _
    next => exact .pure _

theorem ClassRegistry.declare_confines (k : ClassId) : Run.Confines c (declare h c k) := by
  refine .bind (.of_read fun _ => rfl) fun e => .bind (find_confines all c e.name) fun found => ?_
  split
  next => exact .pure _
  next =>
    refine .bind (.of_read fun _ => rfl) fun e => ?_
    have entered : Run.Confines c (enter h c k >>= fun _ => pure true) :=
      .bind (enter_confines all c k) fun _ => .pure _
    split
    next =>
      refine .bind (.of_read fun _ => rfl) fun s => .bind (.of_read fun _ => rfl) fun x => ?_
      dsimp only
      split
      next => exact .pure _
      next => exact .bind (.shared _ _) fun _ => entered
    next => exact entered

omit all in
theorem FunctionRegistry.fetch_confines (name : Bytes) :
    Run.Confines c (fetch c name : Run τ (Option FunctionId)) := by
  refine .bind (.of_read fun _ => rfl) fun x => ?_
  split
  next => exact .pure _
  next =>
    refine .bind (.of_read fun _ => rfl) fun s => ?_
    split
    next => exact .bind (.own fun _ => rfl) fun _ => .pure _
    next => exact .pure _

omit all in
theorem FunctionRegistry.declare_confines (f : FunctionId) :
    Run.Confines c (declare c f : Run τ Bool) := by
  refine .bind (.of_read fun _ => rfl) fun e => .bind (fetch_confines c e.name) fun found => ?_
  split
  next => exact .pure _
  next =>
    have entered : Run.Confines c (modifyContext c (fun x =>
        { x with functions := x.functions.insert e.lowerName f }) >>= fun _ => pure true :
          Run τ Bool) :=
      .bind (.own fun _ => rfl) fun _ => .pure _
    split
    next =>
      refine .bind (.of_read fun _ => rfl) fun s => .bind (.of_read fun _ => rfl) fun x => ?_
      dsimp only
      split
      next => exact .pure _
      next => exact .bind (.shared _ _) fun _ => entered
    next => exact entered

omit all in
theorem ConstantRegistry.add_confines (k : ConstantId) : Run.Confines c (add c k : Run τ Unit) :=
  .bind (.of_read fun _ => rfl) fun _ => .own fun _ => rfl

omit all in
theorem ConstantRegistry.find_confines (name : Bytes) :
    Run.Confines c (find c name : Run τ (Option ConstantId)) := by
  refine .bind (.of_read fun _ => rfl) fun x => ?_
  split
  next => exact .pure _
  next =>
    refine .bind (.of_read fun _ => rfl) fun s => ?_
    split
    next => exact .bind (add_confines c _) fun _ => .pure _
    next => exact .pure _

omit all in
theorem ConstantRegistry.declare_confines (k : ConstantId) :
    Run.Confines c (declare c k : Run τ Bool) := by
  refine .bind (.of_read fun _ => rfl) fun e => .bind (find_confines c e.name) fun found => ?_
  split
  next => exact .pure _
  next =>
    refine .bind (.of_read fun _ => rfl) fun s => .bind (.of_read fun _ => rfl) fun x => ?_
    dsimp only
    split
    next => exact .pure _
    next => exact .bind (.shared _ _) fun _ => .bind (add_confines c k) fun _ => .pure _

theorem Diagnostics.warning_confines (trace : Trace) (text : Bytes) :
    Run.Confines c (warning h c trace text) :=
  warning_closed (Run.Confines.isClosed c)
    (fun k chunk mode => .of_spares (all.filterOutput k c chunk mode).2)
    (fun k m => .of_spares (all.handleError k c m).2)
    (fun k m => .of_spares (all.reportError k c m).2)
    (fun _ => Run.Confines.own fun _ => rfl) trace text

theorem Entity.take_confines (e : Entity) : Run.Confines c (e.take h c) := by
  cases e with
  | ofClass k =>
    refine .bind (.of_read fun _ => rfl) fun e => ?_
    split
    next =>
      refine .bind (ClassRegistry.declare_confines all c k) fun b => ?_
      cases b with
      | true => exact .pure _
      | false =>
        exact .bind (.of_read fun _ => rfl) fun e => Diagnostics.warning_confines all c _ _
    next => exact .pure _
  | ofFunction f =>
    refine .bind (.of_read fun _ => rfl) fun e => ?_
    split
    next =>
      refine .bind (FunctionRegistry.declare_confines c f) fun b => ?_
      cases b with
      | true => exact .pure _
      | false => exact Diagnostics.warning_confines all c _ _
    next => exact .pure _
  | ofConstant k =>
    refine .bind (ConstantRegistry.declare_confines c k) fun b => ?_
    cases b with
    | true => exact .pure _
    | false => exact .bind (.of_read fun _ => rfl) fun e => Diagnostics.warning_confines all c _ _

theorem Entity.takeAll_confines (es : List Entity) : Run.Confines c (takeAll h c es) := by
  induction es with
  | nil => exact .pure _
  | cons e rest ih => exact .bind (e.take_confines all c) fun _ => ih

theorem Modules.register_confines (m : ModuleId) : Run.Confines c (register h c m) := fun w => by
  rw [register_apply]
  exact Run.Confines.bind (Entity.takeAll_confines all c _)
    (fun _ v => show World.Confines v (v.recordModule c m) c from
      .updateContext v c _ fun _ => rfl) w

theorem Lookup.find_confines (q : Lookup) : Run.Confines c (q.find h c) := by
  cases q with
  | ofClass name => exact .bind (ClassRegistry.find_confines all c name) fun _ => .pure _
  | ofFunction name => exact .bind (FunctionRegistry.fetch_confines c name) fun _ => .pure _
  | ofConstant name => exact .bind (ConstantRegistry.find_confines c name) fun _ => .pure _

end Registries

theorem Lookup.find_reaches (usable : w.IsUsable h c) (q : Lookup) :
    ∃ v, q.find h c w = (.ok ((w.names c).meaning q), v) ∧
      w.Reaches v c ((w.names c).draw w q) := by
  have ends {α : Type} {entity : α → Entity} {find : Run τ (Option α)}
      (draws : w.Draws c entity q find) :
      ∃ v, (return (← find).map entity : Run τ (Option Entity)) w =
        (.ok ((w.names c).meaning q), v) ∧ w.Reaches v c ((w.names c).draw w q) := by
    cases stands : (w.names c).meaning q with
    | none =>
      refine ⟨w, bind_ok (draws.nowhere stands), ?_⟩
      rw [Naming.draw_of_unknown stands]
      exact .refl w c
    | some x =>
      obtain ⟨a, v, rfl, found, reaches⟩ := draws.somewhere x stands
      exact ⟨v, bind_ok found, reaches⟩
  cases q with
  | ofClass name => exact ends (ClassRegistry.find_draws usable name)
  | ofFunction name => exact ends (FunctionRegistry.fetch_draws usable name)
  | ofConstant name => exact ends (ConstantRegistry.find_draws usable name)

def World.Houses (w : World τ) (s : ScopeId) (c : ContextId) : Prop :=
  w.contexts.has c ∧ (w.context c).scope = s

inductive Visit where
  | register (c : ContextId) (m : ModuleId)
  | look (c : ContextId) (q : Lookup)

namespace Visit

def context : Visit → ContextId
  | register c _ | look c _ => c

def perform (h : Host τ) : Visit → Run τ (Option Entity)
  | register c m => do
    Modules.register h c m
    return none
  | look c q => q.find h c

def IsFit (w : World τ) (s : ScopeId) : Visit → Prop
  | register c m => w.Houses s c ∧ w.modules.has m ∧ ∀ x ∈ w.entities m, x.IsPlain w
  | look c _ => w.Houses s c

theorem IsFit.houses {visit : Visit} (fit : visit.IsFit w s) : w.Houses s visit.context := by
  cases visit with
  | register => exact fit.1
  | look => exact fit

def answer (n : Naming) : Visit → Option Entity
  | register _ _ => none
  | look _ q => n.meaning q

def settled (w : World τ) (n : Naming) : Visit → Naming
  | register _ m => n.settleAll w (w.declared m)
  | look _ q => n.draw w q

def plan (w : World τ) (visit : Visit) (N : ContextId → Naming) : ContextId → Naming := fun d =>
  if d = visit.context then visit.settled w (N visit.context)
  else { N d with shared := (visit.settled w (N visit.context)).shared }

end Visit

structure World.Stands (w u : World τ) (h : Host τ) (s : ScopeId) (N : ContextId → Naming) :
    Prop where
  grounded : ∀ m x, x ∈ w.entities m → x.isKnown w
  entities : ∀ x : Entity, x.isKnown w → x.isKnown u ∧ x.profile u = x.profile w
  modules : ∀ m, w.modules.has m → u.modules.has m ∧ u.modules.get m = w.modules.get m
  houses : ∀ c, w.Houses s c → u.Houses s c
  names : ∀ c, w.Houses s c → u.names c = N c
  sound : ∀ c, w.Houses s c → (N c).IsSound w
  usable : ∀ c, w.Houses s c → u.IsUsable h c

namespace World.Stands

variable {N : ContextId → Naming}

theorem start (grounded : ∀ m x, x ∈ w.entities m → x.isKnown w)
    (usable : ∀ c, w.Houses s c → w.IsUsable h c) : w.Stands w h s w.names :=
  ⟨grounded, fun _ known => ⟨known, rfl⟩, fun _ known => ⟨known, rfl⟩, fun _ => id, fun _ _ => rfl,
    fun c here => (usable c here).names, usable⟩

variable (all : h.SparesAll) (stands : w.Stands u h s N)
include all stands

theorem step (here : w.Houses s c) (n : Naming) (sound : n.IsSound w)
    (entities : ∀ x : Entity, x.isKnown u → x.isKnown v ∧ x.profile v = x.profile u)
    (modules : ∀ m, u.modules.has m → v.modules.has m ∧ v.modules.get m = u.modules.get m)
    (confines : u.Confines v c) (reached : v.names c = n) (usable : v.IsUsable h c) :
    w.Stands v h s fun d => if d = c then n else { N d with shared := n.shared } := by
  have kept (x : Entity) (known : x.isKnown w) : x.isKnown v ∧ x.profile v = x.profile w := by
    obtain ⟨known', same⟩ := stands.entities x known
    exact (entities x known').imp_right (·.trans same)
  have houses (d : ContextId) (there : w.Houses s d) : v.Houses s d := by
    obtain ⟨known, scope⟩ := stands.houses d there
    exact ⟨confines.there d known, (confines.scope d).trans scope⟩
  -- the scope is the same for all, so what it has can be read off the visited context
  have shared (d : ContextId) (there : w.Houses s d) : (v.names d).shared = n.shared := by
    rw [← reached, World.names, World.names, World.scopeOf, World.scopeOf, (houses d there).2,
      (houses c here).2]
  have named (d : ContextId) (there : w.Houses s d) :
      v.names d = if d = c then n else { N d with shared := n.shared } := by
    split
    next same => rw [same, reached]
    next other =>
      have own : (v.names d).own = (N d).own := by rw [confines.own d other, stands.names d there]
      exact Naming.ext own (shared d there)
  have every (d : ContextId) (there : w.Houses s d) :
      Naming.IsSound (if d = c then n else { N d with shared := n.shared }) w := by
    split
    next => exact sound
    next => exact ⟨(stands.sound d there).own, sound.shared, sound.regular⟩
  refine ⟨stands.grounded, kept, fun m known => ?_, houses, named, every, fun d there => ?_⟩
  · obtain ⟨known', same⟩ := stands.modules m known
    exact (modules m known').imp_right (·.trans same)
  · refine ⟨(houses d there).1, ?_, ?_, fun q k found => ?_⟩
    · rw [(houses d there).2, ← (houses c here).2]
      exact usable.housed
    · rw [named d there]
      exact (every d there).later kept
    · rw [shared d there, ← reached] at found
      exact ⟨(usable.classes q k found).isStatic, fun hook _ => all.calms d hook⟩

omit all in
theorem shared (here : w.Houses s c) (there : w.Houses s d) : (N c).shared = (N d).shared := by
  rw [← stands.names c here, ← stands.names d there, World.names, World.names, World.scopeOf,
    World.scopeOf, (stands.houses c here).2, (stands.houses d there).2]

omit all in
theorem turns (here : w.Houses s c) (known : w.modules.has m) :
    u.turns c m = (N c).turns w (w.declared m) ∧
      (u.names c).settleAll u (u.declared m) = (N c).settleAll w (w.declared m) := by
  have kept (x : Entity) (there : x.isKnown w) := (stands.entities x there).2
  have each (x : Entity) (member : x ∈ w.declared m) : x.isKnown w :=
    stands.grounded m x (World.mem_declared.1 member).1
  rw [World.turns, stands.names c here, Modules.declared_congr (stands.modules m known).2 fun x member =>
      kept x (stands.grounded m x member),
    Naming.turns_congr (stands.sound c here) kept each,
    Naming.settleAll_congr (stands.sound c here) kept each]
  exact ⟨rfl, rfl⟩

theorem declarable (known : w.modules.has m) (plain : ∀ x ∈ w.entities m, x.IsPlain w) :
    ∀ x ∈ u.entities m, x.IsDeclarable h c u := by
  rw [Modules.entities_congr (stands.modules m known).2]
  intro x member
  have later : x.IsDeclarable h c w :=
    ⟨stands.grounded m x member, plain x member, fun hook _ => all.calms c hook⟩
  exact later.later (stands.entities x later.known)

theorem visit {visit : Visit} (fit : visit.IsFit w s) :
    ∃ v, visit.perform h u = (.ok (visit.answer (N visit.context)), v) ∧
      w.Stands v h s (visit.plan w N) := by
  cases visit with
  | register c m =>
    obtain ⟨here, known, plain⟩ := fit
    have usable := stands.usable c here
    have declarable := stands.declarable (c := c) all known plain
    obtain ⟨v, registered, -, reaches⟩ :=
      Modules.register_settles (all.spares c) (all.returns c) usable declarable
    have confines := Modules.register_confines all c m u
    rw [registered] at confines
    have names := (v.names_recordModule c m).trans reaches.names
    -- what names come to is settled in the present world, but has been planned in the first one
    rw [(stands.turns here known).2] at names
    exact ⟨_, bind_ok registered, stands.step all here _
      ((stands.sound c here).settleAll fun x member =>
        stands.grounded m x (World.mem_declared.1 member).1)
      reaches.entities reaches.modules confines names (usable.registered declarable reaches)⟩
  | look c q =>
    have usable := stands.usable c fit
    have drawn : (u.names c).draw u q = (N c).draw w q := by
      rw [stands.names c fit]
      exact Naming.draw_congr (stands.sound c fit) (fun x there => (stands.entities x there).2) q
    obtain ⟨v, found, reaches⟩ := Lookup.find_reaches usable q
    have confines := Lookup.find_confines all c q u
    have usable' : v.IsUsable h c := usable.reached reaches (usable.names.draw q) fun p k shared =>
      usable.classes p k (by rwa [Naming.draw_shared] at shared)
    rw [found] at confines
    rw [stands.names c fit] at found
    exact ⟨v, found, stands.step all fit _ ((stands.sound c fit).draw q) reaches.entities
      reaches.modules confines (reaches.names.trans drawn) usable'⟩

end World.Stands

end ScriptHost
