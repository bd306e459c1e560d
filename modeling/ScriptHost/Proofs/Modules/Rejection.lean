import ScriptHost.Proofs.Modules.Visits

set_option autoImplicit false

namespace ScriptHost

open Run

variable {τ : Type} {w u v : World τ} {c : ContextId} {h : Host τ} {s : ScopeId} {m : ModuleId}
  {e x : Entity} {es : List Entity} {n n' : Naming} {keys : List Lookup}

namespace Entity

def declareIn (s : ScopeId) : Entity → Run τ (Except AlreadyDeclared Unit)
  | .ofClass k => ScopeRegistry.declareClass s k
  | .ofFunction f => ScopeRegistry.declareFunction s f
  | .ofConstant k => ScopeRegistry.declareConstant s k

def kind : Entity → EntityKind
  | .ofClass _ => .scriptClass
  | .ofFunction _ => .function
  | .ofConstant _ => .constant

end Entity

def Scope.occupant (s : Scope) (w : World τ) : Entity → Option Entity
  | .ofClass k => (s.classes.get? (w.classes.get k).lowerName).map .ofClass
  | .ofFunction f => (s.functions.get? (w.functions.get f).lowerName).map .ofFunction
  | .ofConstant k => (s.constants.find? (w.constants.get k).name).map .ofConstant

def World.mark (w : World τ) : Entity → World τ
  | .ofClass k => { w with classes := w.classes.modify k fun e => { e with isStatic := true } }
  | .ofFunction f => { w with functions := w.functions.modify f fun e => { e with isStatic := true } }
  | .ofConstant _ => w

namespace World

theorem mark_of_static (isStatic : (e.profile w).isStatic) : w.mark e = w := by
  cases e with
  | ofClass k =>
    refine congrArg (fun classes => { w with classes }) (w.classes.modify_eq_self k fun _ => ?_)
    rw [← show (w.classes.get k).isStatic = true from isStatic]
  | ofFunction f =>
    refine congrArg (fun functions => { w with functions }) (w.functions.modify_eq_self f fun _ => ?_)
    rw [← show (w.functions.get f).isStatic = true from isStatic]
  | ofConstant k => rfl

theorem profile_mark_of_ne (other : x ≠ e) : x.profile (w.mark e) = x.profile w := by
  cases e with
  | ofConstant => rfl
  | ofClass k =>
    cases x with
    | ofFunction | ofConstant => rfl
    | ofClass j =>
      have apart : k ≠ j := fun same => other (same ▸ rfl)
      simp only [Entity.profile, mark, Pool.get_modify_of_ne _ _ apart]
  | ofFunction f =>
    cases x with
    | ofClass | ofConstant => rfl
    | ofFunction g =>
      have apart : f ≠ g := fun same => other (same ▸ rfl)
      simp only [Entity.profile, mark, Pool.get_modify_of_ne _ _ apart]

theorem profile_mark_self (known : e.isKnown w) :
    e.profile (w.mark e) = { e.profile w with isStatic := true } := by
  cases e with
  | ofConstant => rfl
  | ofClass k =>
    rw [Entity.profile, mark, w.classes.get_modify_self k _ known]
    rfl
  | ofFunction f =>
    rw [Entity.profile, mark, w.functions.get_modify_self f _ known]
    rfl

theorem name_mark (w : World τ) (e x : Entity) :
    (x.profile (w.mark e)).name = (x.profile w).name ∧
      (x.profile (w.mark e)).isCaseSensitive = (x.profile w).isCaseSensitive := by
  cases e with
  | ofConstant => exact ⟨rfl, rfl⟩
  | ofClass k =>
    cases x with
    | ofFunction | ofConstant => exact ⟨rfl, rfl⟩
    | ofClass j => exact ⟨w.classes.modify_keeps k j _ Class.name fun _ => rfl, rfl⟩
  | ofFunction f =>
    cases x with
    | ofClass | ofConstant => exact ⟨rfl, rfl⟩
    | ofFunction g => exact ⟨w.functions.modify_keeps f g _ Function.name fun _ => rfl, rfl⟩

theorem isKnown_mark (w : World τ) (e x : Entity) : x.isKnown (w.mark e) = x.isKnown w := by
  cases e <;> cases x <;> first | rfl | exact Pool.has_modify ..

theorem names_mark (w : World τ) (e : Entity) (c : ContextId) : (w.mark e).names c = w.names c := by
  cases e <;> rfl

theorem lookup_mark (w : World τ) (e x : Entity) : x.lookup (w.mark e) = x.lookup w :=
  congrArg x.under (w.name_mark e x).1

theorem answersTo_mark (w : World τ) (e x : Entity) (q : Lookup) :
    x.AnswersTo (w.mark e) q ↔ x.AnswersTo w q := by
  unfold Entity.AnswersTo Entity.isExact
  rw [(w.name_mark e x).2, w.lookup_mark e x]

theorem extend_mark (w : World τ) (e x : Entity) (f : Lookup → Option Entity) :
    extend f (w.mark e) x = extend f w x := by
  funext q
  simp only [extend, w.answersTo_mark e x]

theorem settle_mark (w : World τ) (e x : Entity) (n : Naming) :
    n.settle (w.mark e) x = n.settle w x := by
  simp only [Naming.settle, Naming.draw, w.lookup_mark, w.extend_mark]

theorem settleAll_mark (w : World τ) (e : Entity) (n : Naming) (es : List Entity) :
    n.settleAll (w.mark e) es = n.settleAll w es := by
  simp only [Naming.settleAll, w.settle_mark]

theorem standing_mark (w : World τ) (e x : Entity) (n : Naming) :
    n.standing (w.mark e) x = n.standing w x := by
  rw [Naming.standing, Naming.standing, w.lookup_mark]

theorem turns_mark (w : World τ) (e : Entity) (n : Naming) (es : List Entity) :
    n.turns (w.mark e) es = n.turns w es := by
  induction es generalizing n with
  | nil => rfl
  | cons x rest ih =>
    rw [Naming.turns, Naming.turns, w.settle_mark, w.standing_mark, ih]

theorem isSound_mark {n : Naming} (sound : n.IsSound w) (e : Entity) : n.IsSound (w.mark e) where
  own q x held := by
    rw [w.isKnown_mark, w.answersTo_mark]
    exact sound.own q x held
  shared q x there := by
    rw [w.isKnown_mark, w.answersTo_mark]
    exact sound.shared q x there
  regular := by
    have exact (x : Entity) : x.isExact (w.mark e) = x.isExact w := (w.name_mark e x).2
    refine ⟨sound.regular.bare, fun p q same => ?_⟩
    simpa only [exact] using sound.regular.folded p q same

theorem occupant_lookup {s : Scope} (plain : e.IsPlain w) (there : s.occupant w e = some x) :
    s.declarations.find (e.lookup w) = some x := by
  cases e with
  | ofClass k =>
    have bare : withoutSeparator (w.classes.get k).name = (w.classes.get k).name :=
      withoutSeparator_of_plain plain
    show (s.classes.get? (withoutSeparator (w.classes.get k).name).lower).map _ = _
    rwa [bare]
  | ofFunction f =>
    have bare : withoutSeparator (w.functions.get f).name = (w.functions.get f).name :=
      withoutSeparator_of_plain plain
    show (s.functions.get? (withoutSeparator (w.functions.get f).name).lower).map _ = _
    rwa [bare]
  | ofConstant k =>
    have bare : withoutSeparator (w.constants.get k).name = (w.constants.get k).name :=
      withoutSeparator_of_plain plain
    show (s.constants.find? (withoutSeparator (w.constants.get k).name)).map _ = _
    rwa [bare]

end World

theorem Scope.enter_other {α : Type} {t t' : Table α} {key : Bytes} {a b : α}
    (entry : enter t key a = (b, t')) (other : b ≠ a) : t.get? key = some b := by
  unfold enter at entry
  split at entry
  next current there =>
    cases entry
    exact there
  next =>
    cases entry
    exact absurd rfl other

theorem Entity.declareIn_refused {refusal : AlreadyDeclared}
    (refused : e.declareIn s w = (.ok (.error refusal), v)) :
    refusal = ⟨e.kind, (e.profile w).name⟩ ∧ v = w.mark e ∧
      ∃ x, x ≠ e ∧ (w.scopes.get s).occupant w e = some x := by
  cases e with
  | ofClass k =>
    have name : ((w.mark (.ofClass k)).classes.get k).name = (w.classes.get k).name :=
      (w.name_mark (.ofClass k) (.ofClass k)).1
    have marked : (modify fun w => { w with
        classes := w.classes.modify k fun e => { e with isStatic := true } } : Run τ Unit) w =
          (.ok (), w.mark (.ofClass k)) := rfl
    rcases entry : Scope.enter ((w.mark (.ofClass k)).scopes.get s).classes
      (w.classes.get k).lowerName k with ⟨current, classes⟩
    rw [declareIn, ScopeRegistry.declareClass, bind_ok marked, bind_ok (classOf_apply _ k),
      bind_ok (scope_apply _ s), Class.lowerName, name, ← Class.lowerName, entry] at refused
    dsimp only at refused
    split at refused
    next other =>
      cases refused
      refine ⟨rfl, rfl, .ofClass current, fun same => other (Entity.ofClass.inj same), ?_⟩
      exact congrArg (Option.map _) (Scope.enter_other entry other)
    next => cases refused
  | ofFunction f =>
    have name : ((w.mark (.ofFunction f)).functions.get f).name = (w.functions.get f).name :=
      (w.name_mark (.ofFunction f) (.ofFunction f)).1
    have marked : (modify fun w => { w with
        functions := w.functions.modify f fun e => { e with isStatic := true } } : Run τ Unit) w =
          (.ok (), w.mark (.ofFunction f)) := rfl
    rcases entry : Scope.enter ((w.mark (.ofFunction f)).scopes.get s).functions
      (w.functions.get f).lowerName f with ⟨current, functions⟩
    rw [declareIn, ScopeRegistry.declareFunction, bind_ok marked, bind_ok (functionOf_apply _ f),
      bind_ok (scope_apply _ s), Function.lowerName, name, ← Function.lowerName, entry] at refused
    dsimp only at refused
    split at refused
    next other =>
      cases refused
      refine ⟨rfl, rfl, .ofFunction current, fun same => other (Entity.ofFunction.inj same), ?_⟩
      exact congrArg (Option.map _) (Scope.enter_other entry other)
    next => cases refused
  | ofConstant k =>
    rcases entry : ConstantRegistry.enterSet (w.scopes.get s).constants (w.constants.get k) k with
      ⟨current, constants⟩
    rw [declareIn, ScopeRegistry.declareConstant, bind_ok (constantOf_apply w k),
      bind_ok (scope_apply w s), entry] at refused
    dsimp only at refused
    split at refused
    next other =>
      cases refused
      refine ⟨rfl, rfl, .ofConstant current, fun same => other (Entity.ofConstant.inj same), ?_⟩
      -- a constant is refused by what its set finds under its spelling, not by a single key
      unfold ConstantRegistry.enterSet at entry
      split at entry
      next there =>
        cases entry
        exact congrArg (Option.map _) there
      next =>
        cases entry
        exact absurd rfl other
    next => cases refused

theorem Naming.DrawnAhead.settleAll_marked (known : e.isKnown w)
    (dynamic : (e.profile w).isStatic = false) (sound : n.IsSound w)
    (taken : e.IsPlain w → ∃ y, n.shared (e.lookup w) = some y)
    (each : ∀ x ∈ es, x.isKnown w ∧ x.IsPlain w) (ahead : n.DrawnAhead n' keys) :
    (∃ keys', (n.settleAll w (w.statics es)).DrawnAhead
      (n'.settleAll w ((w.mark e).statics es)) keys') ∧
    (n'.turns w ((w.mark e).statics es)).filter (·.1 ≠ e) = n.turns w (w.statics es) ∧
    ∀ b, (e, b) ∈ n'.turns w ((w.mark e).statics es) →
      b = decide (n.meaning (e.lookup w) ≠ some e) := by
  have loose : (e.lookup w).isConstant = false := by
    cases e with
    | ofClass | ofFunction => rfl
    | ofConstant => cases dynamic
  -- both namings change with each turn, so the induction is on the entities for all of them
  induction es generalizing n n' keys with
  | nil => exact ⟨⟨keys, ahead⟩, rfl, fun _ member => nomatch member⟩
  | cons x rest ih =>
    obtain ⟨⟨there, plain⟩, others⟩ := List.forall_mem_cons.1 each
    by_cases same : x = e
    · subst same
      -- this turn is taken with the mark only: the context draws what the scope has instead
      have isStatic : (x.profile (w.mark x)).isStatic := by rw [World.profile_mark_self known]
      obtain ⟨y, shared⟩ := taken plain
      obtain ⟨z, stands⟩ := n.meaning_of_shared shared
      obtain ⟨keys', drawn⟩ := ahead.draw_alone sound loose shared
      have settled : n'.settle w x = n'.draw w (x.lookup w) := by
        simp only [Naming.settle, ahead.meaning, stands]
      obtain ⟨later, turns, own⟩ := ih sound taken others drawn
      rw [Entity.statics_cons_dynamic dynamic, Entity.statics_cons_static isStatic,
        Naming.settleAll_cons, Naming.turns, settled]
      refine ⟨later, ?_, fun b member => ?_⟩
      · rw [List.filter_cons_of_neg (by simp)]
        exact turns
      · rcases List.mem_cons.1 member with first | late
        · cases first
          rw [ahead.standing, Naming.standing, stands]
          simp
        · exact own b late
    · have kept : x.profile (w.mark e) = x.profile w := World.profile_mark_of_ne same
      cases isStatic : (x.profile w).isStatic with
      | false =>
        rw [Entity.statics_cons_dynamic isStatic, Entity.statics_cons_dynamic (kept ▸ isStatic)]
        exact ih sound taken others ahead
      | true =>
        have taken' (plain : e.IsPlain w) : ∃ y, (n.settle w x).shared (e.lookup w) = some y := by
          obtain ⟨y, shared⟩ := taken plain
          exact ⟨y, Naming.settle_shared_held shared⟩
        obtain ⟨later, turns, own⟩ := ih (sound.settle there) taken' others (ahead.settle sound plain)
        rw [Entity.statics_cons_static isStatic, Entity.statics_cons_static (kept ▸ isStatic),
          Naming.settleAll_cons, Naming.settleAll_cons, Naming.turns, Naming.turns,
          ahead.standing]
        refine ⟨later, ?_, fun b member => ?_⟩
        · rw [List.filter_cons_of_pos (by simpa using same), turns]
        · rcases List.mem_cons.1 member with first | late
          · cases first
            exact absurd rfl same
          · -- the name of the marked one stands for the same before and after the turn of another
            have inside : e ∈ (w.mark e).statics rest := by
              rw [← Naming.map_fst_turns w (n'.settle w x) ((w.mark e).statics rest)]
              exact List.mem_map.2 ⟨_, late, rfl⟩
            have plain' := (others e (List.mem_filter.1 inside).1).2
            obtain ⟨y, shared⟩ := taken plain'
            obtain ⟨z, stands⟩ := n.meaning_of_shared shared
            rw [own b late, sound.settle_loose plain loose stands, stands]

def World.PlansAhead (w : World τ) (e : Entity) (s : ScopeId) (N N' : ContextId → Naming) : Prop :=
  ∀ c, w.Houses s c → (e.IsPlain w → ∃ y, (N c).shared (e.lookup w) = some y) ∧
    ∃ keys, (N c).DrawnAhead (N' c) keys

namespace World

variable {N N' : ContextId → Naming}

theorem entities_mark (w : World τ) (e : Entity) (m : ModuleId) :
    (w.mark e).entities m = w.entities m := by
  cases e <;> rfl

theorem houses_mark (w : World τ) (e : Entity) (s : ScopeId) (c : ContextId) :
    (w.mark e).Houses s c ↔ w.Houses s c := by
  cases e <;> rfl

theorem draw_mark (w : World τ) (e : Entity) (n : Naming) (q : Lookup) :
    n.draw (w.mark e) q = n.draw w q := by
  simp only [Naming.draw, extend_mark]

theorem isPlain_mark (w : World τ) (e x : Entity) : x.IsPlain (w.mark e) ↔ x.IsPlain w := by
  rw [Entity.IsPlain, Entity.IsPlain, (w.name_mark e x).1]

theorem isFit_mark {visit : Visit} (fit : visit.IsFit w s) : visit.IsFit (w.mark e) s := by
  cases visit with
  | register c m =>
    obtain ⟨here, known, plain⟩ := fit
    refine ⟨(w.houses_mark e s c).2 here, by cases e <;> exact known, fun x member => ?_⟩
    rw [w.entities_mark] at member
    exact (w.isPlain_mark e x).2 (plain x member)
  | look c q => exact (w.houses_mark e s c).2 fit

theorem isReady_mark (known : e.isKnown w) (ready : x.IsReady h c w) :
    x.IsReady h c (w.mark e) := by
  by_cases same : x = e
  · subst same
    refine ⟨by rw [profile_mark_self known], fun hook own => ready.calm hook ?_⟩
    rwa [profile_mark_self known] at own
  · exact ready.later (profile_mark_of_ne same)

theorem IsUsable.mark (usable : w.IsUsable h c) (known : e.isKnown w) :
    (w.mark e).IsUsable h c where
  there := by cases e <;> exact usable.there
  housed := by cases e <;> exact usable.housed
  names := by
    rw [names_mark]
    exact isSound_mark usable.names e
  classes q k shared := by
    rw [names_mark] at shared
    exact isReady_mark known (usable.classes q k shared)

variable (known : e.isKnown w) (dynamic : (e.profile w).isStatic = false)
include known dynamic

theorem PlansAhead.visit {visit : Visit} (stands : w.Stands u h s N) (fit : visit.IsFit w s)
    (ahead : w.PlansAhead e s N N') :
    w.PlansAhead e s (visit.plan w N) (visit.plan (w.mark e) N') := by
  have here := fit.houses
  obtain ⟨taken, keys, drawn⟩ := ahead visit.context here
  -- what the visited context comes to, and that the scope loses nothing by it
  have settled : (∃ keys', (visit.settled w (N visit.context)).DrawnAhead
        (visit.settled (w.mark e) (N' visit.context)) keys') ∧
      ∀ q x, (N visit.context).shared q = some x →
        (visit.settled w (N visit.context)).shared q = some x := by
    cases visit with
    | register c m =>
      refine ⟨?_, fun q x there => Naming.settleAll_shared_held there⟩
      have each : ∀ x ∈ w.entities m, x.isKnown w ∧ x.IsPlain w := fun x member =>
        ⟨stands.grounded m x member, fit.2.2 x member⟩
      obtain ⟨later, -⟩ := drawn.settleAll_marked known dynamic (stands.sound c here) taken each
      rw [Visit.settled, Visit.settled, declared, declared, entities_mark, settleAll_mark]
      exact later
    | look c q =>
      refine ⟨⟨keys, ?_⟩, fun p x there => by rwa [Visit.settled, Naming.draw_shared]⟩
      rw [Visit.settled, Visit.settled, draw_mark]
      exact drawn.draw (stands.sound c here) q
  obtain ⟨⟨keys', later⟩, keeps⟩ := settled
  intro d there
  rw [Visit.plan, Visit.plan]
  split
  next same =>
    refine ⟨fun plain => ?_, keys', later⟩
    obtain ⟨y, found⟩ := taken plain
    exact ⟨y, keeps _ y found⟩
  next =>
    have grows (q : Lookup) (x : Entity) (found : (N d).shared q = some x) :
        (visit.settled w (N visit.context)).shared q = some x :=
      keeps q x (by rwa [stands.shared here there])
    obtain ⟨taken, keys, drawn⟩ := ahead d there
    refine ⟨fun plain => ?_, keys, ?_⟩
    · obtain ⟨y, found⟩ := taken plain
      exact ⟨y, grows _ y found⟩
    · rw [later.shared]
      exact drawn.share grows

omit dynamic

theorem PlansAhead.visits (dynamic : (e.profile w).isStatic = false) (all : h.SparesAll)
    {visits : List Visit} (fit : ∀ visit ∈ visits, visit.IsFit w s) {u' : World τ}
    (stands : w.Stands u h s N) (stands' : (w.mark e).Stands u' h s N')
    (ahead : w.PlansAhead e s N N') :
    ∃ answers v v' M M', visits.mapM (Visit.perform h) u = (.ok answers, v) ∧
      visits.mapM (Visit.perform h) u' = (.ok answers, v') ∧
      w.Stands v h s M ∧ (w.mark e).Stands v' h s M' ∧ w.PlansAhead e s M M' := by
  -- a visit changes the worlds and both plans, and keeps the one plan ahead of the other
  induction visits generalizing u u' N N' with
  | nil => exact ⟨[], u, u', N, N', rfl, rfl, stands, stands', ahead⟩
  | cons visit rest ih =>
    obtain ⟨first, others⟩ := List.forall_mem_cons.1 fit
    obtain ⟨v, performed, after⟩ := stands.visit all first
    obtain ⟨v', performed', after'⟩ := stands'.visit all (isFit_mark first)
    obtain ⟨answers, x, x', M, M', ended, ended', last⟩ :=
      ih others after after' (ahead.visit known dynamic stands first)
    have same : visit.answer (N' visit.context) = visit.answer (N visit.context) := by
      cases visit with
      | register => rfl
      | look c q =>
        obtain ⟨-, keys, drawn⟩ := ahead c first
        exact drawn.meaning q
    rw [same] at performed'
    refine ⟨visit.answer (N visit.context) :: answers, x, x', M, M', ?_, ?_, last⟩
    · rw [List.mapM_cons, bind_ok performed, bind_ok ended]
      rfl
    · rw [List.mapM_cons, bind_ok performed', bind_ok ended']
      rfl

end World

/-- The registration of a module with a mark on one of its entities and without it. All others take the
same turns, and only with the mark there is one for this entity. It ends with a warning unless the
context has this very entity under its name. -/
structure World.RegistersAlike (u u' : World τ) (h : Host τ) (c : ContextId) (m : ModuleId)
    (e : Entity) (q : Lookup) : Prop where
  unmarked : Modules.register h c m u =
    (do Entity.takeAllAs h c (u.turns c m); Modules.record c m : Run τ Unit) u
  marked : Modules.register h c m u' =
    (do Entity.takeAllAs h c (u'.turns c m); Modules.record c m : Run τ Unit) u'
  others : (u'.turns c m).filter (·.1 ≠ e) = u.turns c m
  turn : ∀ b, (e, b) ∈ u'.turns c m ↔
    e ∈ u.entities m ∧ b = decide ((u.names c).meaning q ≠ some e)

theorem World.PlansAhead.registers {N N' : ContextId → Naming} {u' : World τ}
    (known : e.isKnown w) (dynamic : (e.profile w).isStatic = false) (all : h.SparesAll)
    (stands : w.Stands u h s N) (stands' : (w.mark e).Stands u' h s N')
    (ahead : w.PlansAhead e s N N') (fit : (Visit.register c m).IsFit w s) :
    u.RegistersAlike u' h c m e (e.lookup w) := by
  have fit' : (Visit.register c m).IsFit (w.mark e) s := World.isFit_mark fit
  obtain ⟨here, there, plain⟩ := fit
  obtain ⟨here', there', plain'⟩ := fit'
  obtain ⟨-, -, unmarked, -⟩ := Modules.register_settles (all.spares c) (all.returns c)
    (stands.usable c here) (stands.declarable all there plain)
  obtain ⟨-, -, marked, -⟩ := Modules.register_settles (all.spares c) (all.returns c)
    (stands'.usable c here') (stands'.declarable all there' plain')
  have each : ∀ x ∈ w.entities m, x.isKnown w ∧ x.IsPlain w := fun x member =>
    ⟨stands.grounded m x member, plain x member⟩
  have turns := (stands.turns here there).1
  have turns' := (stands'.turns here' there').1
  rw [World.declared, w.entities_mark, w.turns_mark] at turns'
  obtain ⟨taken, keys, drawn⟩ := ahead c here
  obtain ⟨-, others, own⟩ :=
    drawn.settleAll_marked known dynamic (stands.sound c here) taken each
  refine ⟨unmarked, marked, ?_, fun b => ?_⟩
  · rw [turns, turns']
    exact others
  -- the refused entity has a turn exactly if the module has it, as it is static by now
  · have isStatic : (e.profile (w.mark e)).isStatic := by rw [World.profile_mark_self known]
    rw [turns', stands.names c here, Modules.entities_congr (stands.modules m there).2]
    refine ⟨fun member => ⟨?_, own b member⟩, ?_⟩
    · have inside := List.mem_map_of_mem (f := Prod.fst) member
      rw [Naming.map_fst_turns] at inside
      exact (List.mem_filter.1 inside).1
    · rintro ⟨member, rfl⟩
      have inside : e ∈ (w.mark e).statics (w.entities m) := List.mem_filter.2 ⟨member, isStatic⟩
      rw [← Naming.map_fst_turns w (N' c) ((w.mark e).statics (w.entities m))] at inside
      obtain ⟨⟨x, b⟩, turn, rfl⟩ := List.mem_map.1 inside
      rwa [← own b turn]

/-- A refused declaration names what has been refused, and another entity has its place. All it changes
is that a class or a function is static from then on. Whatever modules are registered and whatever is
looked up in the contexts of the scope later, the answers are the same as without it, and each
registration of a module that has the entity gets one more turn, with a warning unless the context has
the entity itself under its name. If it has been static before, nothing changes at all. -/
theorem Entity.refused_only_warns {w' : World τ} {refusal : AlreadyDeclared} (all : h.SparesAll)
    (sound : w.Sound) (scopes : w.HasStaticScopes) (known : e.isKnown w)
    (refused : e.declareIn s w = (.ok (.error refusal), w')) :
    refusal = ⟨e.kind, (e.profile w).name⟩ ∧
      (∃ x, x ≠ e ∧ (w.scopes.get s).occupant w e = some x) ∧
      w' = w.mark e ∧ ((e.profile w).isStatic → w' = w) ∧
      ((e.profile w).isStatic = false → ∀ visits : List Visit,
        (∀ visit ∈ visits, visit.IsFit w s) →
        ∃ answers u u', visits.mapM (Visit.perform h) w = (.ok answers, u) ∧
          visits.mapM (Visit.perform h) w' = (.ok answers, u') ∧
          ∀ c, w.Houses s c → (∀ q : Lookup, (q.find h c u').1 = (q.find h c u).1) ∧
            ∀ m, (Visit.register c m).IsFit w s →
              u.RegistersAlike u' h c m e (e.lookup w)) := by
  obtain ⟨cause, rfl, x, other, occupant⟩ := declareIn_refused refused
  refine ⟨cause, ⟨x, other, occupant⟩, rfl, World.mark_of_static, fun dynamic visits fit => ?_⟩
  have grounded (m : ModuleId) (y : Entity) (member : y ∈ w.entities m) : y.isKnown w :=
    sound.knows_entities member
  have grounded' (m : ModuleId) (y : Entity) (member : y ∈ (w.mark e).entities m) :
      y.isKnown (w.mark e) := by
    rw [w.entities_mark] at member
    exact (w.isKnown_mark e y).trans (grounded m y member)
  have usable (c : ContextId) (here : w.Houses s c) : w.IsUsable h c :=
    sound.usable scopes here.1 fun _ _ hook _ _ => all.calms c hook
  have stands := World.Stands.start grounded usable
  have stands' : (w.mark e).Stands (w.mark e) h s (w.mark e).names :=
    .start grounded' fun c here => (usable c ((w.houses_mark e s c).1 here)).mark known
  -- nothing has been declared yet: the occupant has the name, and both runs start from the same
  -- names
  have ahead : w.PlansAhead e s w.names (w.mark e).names := fun c here => by
    refine ⟨fun plain => ⟨x, ?_⟩, [], ?_⟩
    · rw [World.names, World.scopeOf, here.2]
      exact World.occupant_lookup plain occupant
    · rw [w.names_mark]
      exact .refl _
  obtain ⟨answers, u, u', M, M', ended, ended', after, after', last⟩ :=
    ahead.visits known dynamic all fit stands stands'
  refine ⟨answers, u, u', ended, ended', fun c here => ⟨fun q => ?_, fun m fit =>
    last.registers known dynamic all after after' fit⟩⟩
  have here' := (w.houses_mark e s c).2 here
  obtain ⟨-, keys, drawn⟩ := last c here
  rw [Lookup.find_answers (after'.usable c here'), Lookup.find_answers (after.usable c here),
    after'.names c here', after.names c here, drawn.meaning]

theorem Host.idle_sparesAll : (Host.idle : Host τ).SparesAll where
  enterClass _ _ w := ⟨w, rfl, fun d => .refl w d⟩
  handleError k c m := ⟨(Host.idle_returns c).1 k m, fun d => (Host.idle_spares d).1 k m⟩
  reportError k c m := ⟨(Host.idle_returns c).2 k m, fun d => (Host.idle_spares d).2 k m⟩
  filterOutput k c chunk mode :=
    ⟨(Host.idle_returns c).3 k chunk mode, fun d => (Host.idle_spares d).3 k chunk mode⟩

def rivalled : Recorded Unit :=
  ((Code.each () (oneContext ++ [newPlainClass "foo", .declareClass ⟨0⟩ ⟨0⟩,
      .newClass ⟨"foo", none, false, default, none, .empty, none, none⟩,
      .newModule { (default : Module) with name := "m", classes := [⟨1⟩] }]) :
      Code Unit Unit).run (stranded.host 1) (.start (FileTree.make "/") ())).2

theorem refused_only_warns_rival :
    ∃ refusal w', (Entity.ofClass ⟨1⟩).declareIn ⟨0⟩ rivalled = (.ok (.error refusal), w') ∧
      refusal = ⟨.scriptClass, ((Entity.ofClass ⟨1⟩).profile rivalled).name⟩ ∧
      w' = rivalled.mark (.ofClass ⟨1⟩) ∧
      ∃ answers u u',
        [.look ⟨0⟩ (.ofClass "Foo"), .register ⟨0⟩ ⟨0⟩].mapM (Visit.perform .idle) rivalled =
          (.ok answers, u) ∧
        [.look ⟨0⟩ (.ofClass "Foo"), .register ⟨0⟩ ⟨0⟩].mapM (Visit.perform .idle) w' =
          (.ok answers, u') ∧
        u.RegistersAlike u' .idle ⟨0⟩ ⟨0⟩ (.ofClass ⟨1⟩) (.ofClass "foo") := by
  have sound : rivalled.Sound := (stranded.course 1 _ _ ()).sound (World.start_sound _ ())
  have scopes : rivalled.HasStaticScopes := (stranded.staticScopes 1 _ _ ()).1
  obtain ⟨result, returned, failed⟩ := Option.map_eq_some_iff.1
    (show ((Entity.ofClass ⟨1⟩).declareIn ⟨0⟩ rivalled).1.toOption.map Except.toOption = some none by
      decide +kernel)
  obtain ⟨refusal, refused⟩ : ∃ refusal, result = .error refusal := by
    cases result with
    | ok => cases failed
    | error refusal => exact ⟨refusal, rfl⟩
  subst refused
  have refused := eq_ok_pair_of_toOption returned
  have plain : ∀ x ∈ rivalled.entities ⟨0⟩, (x.profile rivalled).name.head? ≠ some 0x5c := by
    decide +kernel
  have here : rivalled.Houses ⟨0⟩ ⟨0⟩ := ⟨by decide +kernel, by decide +kernel⟩
  have fit : (Visit.register ⟨0⟩ ⟨0⟩).IsFit rivalled ⟨0⟩ := ⟨here, by decide +kernel, plain⟩
  obtain ⟨cause, -, marked, -, later⟩ := Entity.refused_only_warns Host.idle_sparesAll sound scopes
    (by decide +kernel) refused
  obtain ⟨answers, u, u', ended, ended', alike⟩ := later (by decide +kernel)
    [.look ⟨0⟩ (.ofClass "Foo"), .register ⟨0⟩ ⟨0⟩] (by
      simp only [List.forall_mem_cons]
      exact ⟨here, fit, fun _ member => nomatch member⟩)
  have name : (Entity.ofClass ⟨1⟩).lookup rivalled = .ofClass "foo" := by decide +kernel
  exact ⟨refusal, _, refused, cause, marked, answers, u, u', ended, ended',
    name ▸ (alike ⟨0⟩ here).2 ⟨0⟩ fit⟩

theorem refused_declaration_warns :
    ((Entity.ofClass ⟨1⟩).declareIn ⟨0⟩ rivalled).1.toOption.map Except.toOption = some none ∧
    ((Modules.register .idle ⟨0⟩ ⟨0⟩ rivalled).2.context ⟨0⟩).diagnostics.last.isNone ∧
    ((Modules.register .idle ⟨0⟩ ⟨0⟩ ((Entity.ofClass ⟨1⟩).declareIn ⟨0⟩ rivalled).2).2.context
        ⟨0⟩).diagnostics.last.map Message.text =
      some ("Cannot redeclare class foo" : Bytes) := by
  decide +kernel

end ScriptHost
