import Mathlib.Data.List.Forall2
import ScriptHost.Proofs.Modules.Failure

set_option autoImplicit false

namespace ScriptHost

open Run

variable {τ : Type} {w w' u u' v v' : World τ} {c : ContextId} {s : ScopeId}

inductive Item where
  | entity (e : Entity)
  | module (m : ModuleId)
deriving DecidableEq

namespace Item

abbrev ofClass (k : ClassId) : Item := entity (.ofClass k)

abbrev ofFunction (f : FunctionId) : Item := entity (.ofFunction f)

abbrev ofConstant (k : ConstantId) : Item := entity (.ofConstant k)

theorem ofClass_injective : Function.Injective ofClass := fun _ _ same => by
  cases same
  rfl

theorem ofFunction_injective : Function.Injective ofFunction := fun _ _ same => by
  cases same
  rfl

theorem ofConstant_injective : Function.Injective ofConstant := fun _ _ same => by
  cases same
  rfl

def isKnown (w : World τ) : Item → Bool
  | entity e => e.isKnown w
  | module m => w.modules.has m

end Item

structure Pairing where
  Pairs : Item → Item → Prop
  unique : ∀ {x x' y y'}, Pairs x y → Pairs x' y' → (x = x' ↔ y = y')

namespace Pairing

variable {P Q : Pairing} {α : Type} {of : α → Item} {a a' : α}

def Within (P Q : Pairing) : Prop := ∀ x y, P.Pairs x y → Q.Pairs x y

theorem Within.refl (P : Pairing) : P.Within P := fun _ _ => id

theorem Within.trans {O : Pairing} (first : O.Within P) (rest : P.Within Q) : O.Within Q :=
  fun x y pair => rest x y (first x y pair)

def pair (P : Pairing) (x y : Item) (fresh : ∀ z, ¬ P.Pairs x z) (fresh' : ∀ z, ¬ P.Pairs z y) :
    Pairing where
  Pairs a b := P.Pairs a b ∨ a = x ∧ b = y
  unique := by
    rintro a a' b b' (old | ⟨rfl, rfl⟩) (old' | ⟨rfl, rfl⟩)
    · exact P.unique old old'
    · exact ⟨fun same => absurd (same ▸ old) (fresh b), fun same => absurd (same ▸ old) (fresh' a)⟩
    · exact ⟨fun same => absurd (same ▸ old') (fresh b'),
        fun same => absurd (same ▸ old') (fresh' a')⟩
    · exact ⟨fun _ => rfl, fun _ => rfl⟩

theorem within_pair (P : Pairing) {x y : Item} (fresh : ∀ z, ¬ P.Pairs x z)
    (fresh' : ∀ z, ¬ P.Pairs z y) : P.Within (P.pair x y fresh fresh') := fun _ _ => .inl

def identity (w : World τ) : Pairing where
  Pairs x y := x = y ∧ x.isKnown w
  unique := by
    rintro _ _ _ _ ⟨rfl, _⟩ ⟨rfl, _⟩
    exact Iff.rfl

abbrev Found (of : α → Item) (P : Pairing) : Option α → Option α → Prop :=
  Option.Rel fun a b => P.Pairs (of a) (of b)

def Tables (P : Pairing) (of : α → Item) (t t' : Table α) : Prop :=
  ∀ key, P.Found of (t.get? key) (t'.get? key)

theorem eq_iff {b b' : α} (injective : Function.Injective of) (first : P.Pairs (of a) (of a'))
    (second : P.Pairs (of b) (of b')) : a = b ↔ a' = b' :=
  injective.eq_iff.symm.trans ((P.unique first second).trans injective.eq_iff)

theorem beq_eq [BEq α] [LawfulBEq α] {b b' : α} (injective : Function.Injective of)
    (first : P.Pairs (of a) (of a')) (second : P.Pairs (of b) (of b')) : (a == b) = (a' == b') :=
  Bool.eq_iff_iff.2 (beq_iff_eq.trans ((P.eq_iff injective first second).trans beq_iff_eq.symm))

namespace Tables

variable {t t' : Table α}

theorem later (tables : P.Tables of t t') (within : P.Within Q) : Q.Tables of t t' := fun key => by
  have both := tables key
  generalize t.get? key = found at both ⊢
  generalize t'.get? key = found' at both ⊢
  cases both with
  | some pair => exact .some (within _ _ pair)
  | none => exact .none

theorem named (tables : P.Tables of t t') (name : Bytes) :
    P.Found of (if name.isEmpty then none else t.get? name)
      (if name.isEmpty then none else t'.get? name) := by
  split
  next => exact .none
  next => exact tables name

theorem insert (tables : P.Tables of t t') (pair : P.Pairs (of a) (of a')) (key : Bytes) :
    P.Tables of (t.insert key a) (t'.insert key a') := fun k => by
  rw [Table.get?_insert, Table.get?_insert]
  split
  next => exact .some pair
  next => exact tables k

theorem erase (tables : P.Tables of t t') (key : Bytes) :
    P.Tables of (t.erase key) (t'.erase key) := fun k => by
  rw [Table.get?_erase, Table.get?_erase]
  split
  next => exact .none
  next => exact tables k

theorem enter (tables : P.Tables of t t') (pair : P.Pairs (of a) (of a')) (key : Bytes) :
    P.Pairs (of (Scope.enter t key a).1) (of (Scope.enter t' key a').1) ∧
      P.Tables of (Scope.enter t key a).2 (Scope.enter t' key a').2 := by
  unfold Scope.enter
  rcases found : t.get? key with _ | b <;> rcases found' : t'.get? key with _ | b' <;>
    have both := tables key <;> rw [found, found'] at both
  · exact ⟨pair, tables.insert pair key⟩
  · cases both
  · cases both
  · cases both with
    | some held => exact ⟨held, tables⟩

theorem identity (known : ∀ key a, t.get? key = some a → (of a).isKnown w) :
    (Pairing.identity w).Tables of t t := fun key => by
  cases found : t.get? key with
  | none => exact .none
  | some a => exact .some ⟨rfl, known key a found⟩

theorem enterAll (tables : P.Tables of t t') {keep keep' : α → Bool} {name name' : α → Bytes}
    (alike : ∀ a a', P.Pairs (of a) (of a') → keep a = keep' a' ∧ name a = name' a')
    {items items' : List α}
    (pairs : List.Forall₂ (fun a a' => P.Pairs (of a) (of a')) items items') :
    P.Tables of ((items.filter keep).foldl (fun t a => (Scope.enter t (name a) a).2) t)
      ((items'.filter keep').foldl (fun t a => (Scope.enter t (name' a) a).2) t') := by
  have kept := List.rel_filter (fun a a' pair => Bool.eq_iff_iff.1 (alike a a' pair).1) pairs
  refine List.rel_foldl (fun t t' tables a a' pair => ?_) tables kept
  rw [(alike a a' pair).2]
  exact (tables.enter pair _).2

end Tables

structure Sets (P : Pairing) (d d' : ConstantSet) : Prop where
  exact : P.Tables .ofConstant d.exact d'.exact
  folded : P.Tables .ofConstant d.folded d'.folded

namespace Sets

variable {d d' : ConstantSet} {k k' : ConstantId}

theorem later (sets : P.Sets d d') (within : P.Within Q) : Q.Sets d d' :=
  ⟨sets.exact.later within, sets.folded.later within⟩

theorem find? (sets : P.Sets d d') (name : Bytes) :
    P.Found .ofConstant (d.find? name) (d'.find? name) := by
  unfold ConstantSet.find?
  rcases found : d.exact.get? name with _ | b <;> rcases found' : d'.exact.get? name with _ | b' <;>
    have both := sets.exact name <;> rw [found, found'] at both
  · exact sets.folded name.lower
  · cases both
  · cases both
  · exact both

theorem add (sets : P.Sets d d') (pair : P.Pairs (.ofConstant k) (.ofConstant k')) {e e' : Constant}
    (name : e.name = e'.name) (sensitive : e.isCaseSensitive = e'.isCaseSensitive) :
    P.Sets (d.add e k) (d'.add e' k') := by
  unfold ConstantSet.add Constant.lowerName
  rw [name, sensitive]
  split
  next => exact ⟨sets.exact.insert pair _, sets.folded⟩
  next => exact ⟨sets.exact, sets.folded.insert pair _⟩

end Sets

structure Relates (P : Pairing) (r r' : Registries) : Prop where
  classes : P.Tables .ofClass r.classes r'.classes
  functions : P.Tables .ofFunction r.functions r'.functions
  constants : P.Sets r.constants r'.constants
  modules : P.Tables .module r.modules r'.modules
  moduleIndex : P.Tables .module r.moduleIndex r'.moduleIndex

theorem Relates.later {r r' : Registries} (relates : P.Relates r r') (within : P.Within Q) :
    Q.Relates r r' :=
  ⟨relates.classes.later within, relates.functions.later within,
    relates.constants.later within,
    relates.modules.later within, relates.moduleIndex.later within⟩

structure Likens (P : Pairing) (e e' : Module) : Prop where
  name : e.name = e'.name
  internalName : e.internalName = e'.internalName
  classes : List.Forall₂ (fun a b => P.Pairs (.ofClass a) (.ofClass b)) e.classes e'.classes
  functions : List.Forall₂ (fun a b => P.Pairs (.ofFunction a) (.ofFunction b)) e.functions
    e'.functions
  constants : List.Forall₂ (fun a b => P.Pairs (.ofConstant a) (.ofConstant b)) e.constants
    e'.constants
  body : e.body = e'.body

theorem Likens.later {e e' : Module} (likens : P.Likens e e') (within : P.Within Q) :
    Q.Likens e e' where
  name := likens.name
  internalName := likens.internalName
  classes := likens.classes.imp fun _ _ => within _ _
  functions := likens.functions.imp fun _ _ => within _ _
  constants := likens.constants.imp fun _ _ => within _ _
  body := likens.body

end Pairing

def Scope.registries (x : Scope) : Registries :=
  ⟨x.classes, x.functions, x.constants, x.modules, x.moduleIndex⟩

def Scope.stem (x : Scope) : Option Compiler × Option ModuleCache × Bool :=
  (x.compiler, x.cache, x.isImporting)

structure World.Resembles (P : Pairing) (w w' : World τ) (c : ContextId) (s : ScopeId) : Prop where
  known : ∀ x y, P.Pairs x y → x.isKnown w ∧ y.isKnown w'
  entities : ∀ e e', P.Pairs (.entity e) (.entity e') → e.profile w = e'.profile w'
  modules : ∀ m m', P.Pairs (.module m) (.module m') →
    P.Likens (w.modules.get m) (w'.modules.get m')
  there : w.contexts.has c ∧ w'.contexts.has c
  housed : w.scopes.has s ∧ w'.scopes.has s
  home : (w.context c).scope = s
  conduct : (w.context c).conduct = (w'.context c).conduct
  own : P.Relates (w.context c).registries (w'.context c).registries
  stem : (w.scopes.get s).stem = (w'.scopes.get s).stem
  shared : P.Relates (w.scopes.get s).registries (w'.scopes.get s).registries
  stores : w.stores = w'.stores
  databases : w.databases = w'.databases
  overwritten : ∀ d, w.files.overwritten? d = w'.files.overwritten? d
  minted : w.minted = w'.minted

namespace World.Resembles

variable {P : Pairing}

theorem home' (like : w.Resembles P w' c s) : (w'.context c).scope = s :=
  (congrArg Context.Conduct.scope like.conduct).symm.trans like.home

theorem kept (like : w.Resembles P w' c s) (first : w.Preserves v c) (second : w'.Preserves v' c) :
    v.Resembles P v' c s where
  known x y pair := by
    obtain ⟨there, there'⟩ := like.known x y pair
    cases x <;> cases y
    · exact ⟨(first.entities _ there).1, (second.entities _ there').1⟩
    · exact ⟨(first.entities _ there).1, (second.modules _ there').1⟩
    · exact ⟨(first.modules _ there).1, (second.entities _ there').1⟩
    · exact ⟨(first.modules _ there).1, (second.modules _ there').1⟩
  entities e e' pair := by
    obtain ⟨there, there'⟩ := like.known _ _ pair
    rw [(first.entities e there).2, (second.entities e' there').2, like.entities e e' pair]
  modules m m' pair := by
    obtain ⟨there, there'⟩ := like.known _ _ pair
    rw [(first.modules m there).2, (second.modules m' there').2]
    exact like.modules m m' pair
  there := like.there.imp first.there second.there
  housed := ⟨like.home ▸ first.housed (like.home.symm ▸ like.housed.1),
    like.home' ▸ second.housed (like.home'.symm ▸ like.housed.2)⟩
  home := first.home.trans like.home
  conduct := (first.conduct.trans like.conduct).trans second.conduct.symm
  own := by
    rw [first.registries, second.registries]
    exact like.own
  stem := by
    have scope := first.scope
    have scope' := second.scope
    rw [scopeOf, scopeOf, first.home, like.home] at scope
    rw [scopeOf, scopeOf, second.home, like.home'] at scope'
    rw [scope, scope', like.stem]
  shared := by
    have scope := first.scope
    have scope' := second.scope
    rw [scopeOf, scopeOf, first.home, like.home] at scope
    rw [scopeOf, scopeOf, second.home, like.home'] at scope'
    rw [scope, scope']
    exact like.shared
  stores := (first.stores.trans like.stores).trans second.stores.symm
  databases := (first.databases.trans like.databases).trans second.databases.symm
  overwritten d := ((first.overwritten d).trans (like.overwritten d)).trans
    (second.overwritten d).symm
  minted := (first.minted.trans like.minted).trans second.minted.symm

theorem updateContext (like : w.Resembles P w' c s) {f f' : Context → Context}
    (conduct : ∀ x, (f x).conduct = x.conduct) (conduct' : ∀ x, (f' x).conduct = x.conduct)
    (own : P.Relates (f (w.context c)).registries (f' (w'.context c)).registries) :
    (w.updateContext c f).Resembles P (w'.updateContext c f') c s where
  known := like.known
  entities := like.entities
  modules := like.modules
  there := like.there.imp (w.has_updateContext c c f).trans (w'.has_updateContext c c f').trans
  housed := like.housed
  home := (congrArg Context.Conduct.scope
    (w.contexts.modify_keeps c c f Context.conduct conduct)).trans like.home
  conduct := ((w.contexts.modify_keeps c c f Context.conduct conduct).trans like.conduct).trans
    (w'.contexts.modify_keeps c c f' Context.conduct conduct').symm
  own := by
    rw [context_updateContext, if_pos ⟨rfl, like.there.1⟩, context_updateContext,
      if_pos ⟨rfl, like.there.2⟩]
    exact own
  stem := like.stem
  shared := like.shared
  stores := like.stores
  databases := like.databases
  overwritten := like.overwritten
  minted := like.minted

theorem updateScope (like : w.Resembles P w' c s) {f f' : Scope → Scope}
    (stem : (f (w.scopes.get s)).stem = (f' (w'.scopes.get s)).stem)
    (shared : P.Relates (f (w.scopes.get s)).registries (f' (w'.scopes.get s)).registries) :
    (w.updateScope s f).Resembles P (w'.updateScope s f') c s where
  known := like.known
  entities := like.entities
  modules := like.modules
  there := like.there
  housed := like.housed.imp (Pool.has_modify ..).trans (Pool.has_modify ..).trans
  home := like.home
  conduct := like.conduct
  own := like.own
  stem := by
    rw [World.updateScope, World.updateScope, Pool.get_modify_self _ _ _ like.housed.1,
      Pool.get_modify_self _ _ _ like.housed.2]
    exact stem
  shared := by
    rw [World.updateScope, World.updateScope, Pool.get_modify_self _ _ _ like.housed.1,
      Pool.get_modify_self _ _ _ like.housed.2]
    exact shared
  stores := like.stores
  databases := like.databases
  overwritten := like.overwritten
  minted := like.minted

theorem pair (like : w.Resembles P w' c s) {x y : Item} (fresh : ∀ z, ¬ P.Pairs x z)
    (fresh' : ∀ z, ¬ P.Pairs z y) (known : x.isKnown w ∧ y.isKnown w')
    (profile : ∀ e e', x = .entity e → y = .entity e' → e.profile w = e'.profile w')
    (likens : ∀ m m', x = .module m → y = .module m' →
      P.Likens (w.modules.get m) (w'.modules.get m')) :
    w.Resembles (P.pair x y fresh fresh') w' c s :=
  have within := P.within_pair fresh fresh'
  { like with
    known := by
      rintro a b (old | ⟨rfl, rfl⟩)
      · exact like.known a b old
      · exact known
    entities := by
      rintro e e' (old | ⟨same, same'⟩)
      · exact like.entities e e' old
      · exact profile e e' same.symm same'.symm
    modules := by
      rintro m m' (old | ⟨same, same'⟩)
      · exact (like.modules m m' old).later within
      · exact (likens m m' same.symm same'.symm).later within
    own := like.own.later within
    shared := like.shared.later within }

end World.Resembles

inductive Ends {ε α β : Type} (R : α → β → Prop) : Except ε α → Except ε β → Prop
  | ok {a : α} {b : β} (related : R a b) : Ends R (.ok a) (.ok b)
  | error (e : ε) : Ends R (.error e) (.error e)

def Run.Parallels {α β : Type} (c : ContextId) (s : ScopeId) (P : Pairing)
    (R : Pairing → α → β → Prop) (m : Run τ α) (m' : Run τ β) : Prop :=
  ∀ Q, P.Within Q → ∀ w w', w.Resembles Q w' c s →
    ∃ O, Q.Within O ∧ (m w).2.Resembles O (m' w').2 c s ∧ Ends (R O) (m w).1 (m' w').1

abbrev Pairing.Same {α : Type} (_ : Pairing) (a b : α) : Prop := a = b

theorem Run.ensuring_outcome {α : Type} (body : Run τ α) (after : Run τ Unit) (w : World τ) :
    (ensuring body after w).1 = match (after (body w).2).1 with
      | .ok () => (body w).1
      | .error signal => .error signal := by
  unfold ensuring
  rcases body w with ⟨result, v⟩
  rcases last : after v with ⟨_ | _, _⟩ <;> simp [last]

namespace Run.Parallels

variable {α β γ δ : Type} {P Q : Pairing} {R : Pairing → α → β → Prop} {S : Pairing → γ → δ → Prop}
  {m : Run τ α} {m' : Run τ β}

theorem later (parallels : m.Parallels c s P R m') (within : P.Within Q) :
    m.Parallels c s Q R m' := fun O wide => parallels O (within.trans wide)

theorem value {a : α} {b : β} (related : ∀ Q, P.Within Q → R Q a b) :
    (pure a : Run τ α).Parallels c s P R (pure b : Run τ β) := fun Q within _ _ like =>
  ⟨Q, .refl Q, like, .ok (related Q within)⟩

theorem bind {f : α → Run τ γ} {f' : β → Run τ δ} (first : m.Parallels c s P R m')
    (rest : ∀ Q, P.Within Q → ∀ a b, R Q a b → (f a).Parallels c s Q S (f' b)) :
    (m >>= f).Parallels c s P S (m' >>= f') := by
  intro Q within w w' like
  obtain ⟨O, wide, between, ends⟩ := first Q within w w' like
  rw [bind_apply, bind_apply]
  rcases result : m w with ⟨outcome, u⟩
  rcases result' : m' w' with ⟨outcome', u'⟩
  rw [result, result'] at between ends
  cases ends with
  | error signal => exact ⟨O, wide, between, .error signal⟩
  | ok related =>
    obtain ⟨N, wider, after, ends⟩ :=
      rest O (within.trans wide) _ _ related O (.refl O) u u' between
    exact ⟨N, wide.trans wider, after, ends⟩

theorem unwinds (signal : Signal) :
    (throw signal : Run τ α).Parallels c s P R (throw signal : Run τ β) := fun Q _ _ _ like =>
  ⟨Q, .refl Q, like, .error signal⟩

theorem ensuring (mono : ∀ {Q O a b}, Q.Within O → R Q a b → R O a b)
    (body : m.Parallels c s P R m') {last last' : Run τ Unit}
    (ending : ∀ Q, P.Within Q → last.Parallels c s Q Pairing.Same last') :
    (Run.ensuring m last).Parallels c s P R (Run.ensuring m' last') := by
  intro Q within w w' like
  obtain ⟨O, wide, between, ends⟩ := body Q within w w' like
  obtain ⟨N, wider, after, closes⟩ := ending O (within.trans wide) O (.refl O) _ _ between
  refine ⟨N, wide.trans wider, by rwa [ensuring_apply, ensuring_apply], ?_⟩
  rw [ensuring_outcome, ensuring_outcome]
  generalize (last (m w).2).1 = closed at closes ⊢
  generalize (last' (m' w').2).1 = closed' at closes ⊢
  cases closes with
  | error signal => exact .error signal
  | ok _ =>
    generalize (m w).1 = ended at ends ⊢
    generalize (m' w').1 = ended' at ends ⊢
    cases ends with
    | ok related => exact .ok (mono wider related)
    | error signal => exact .error signal

theorem reads {f : World τ → α} {f' : World τ → β} (read : ∀ w, m w = (.ok (f w), w))
    (read' : ∀ w, m' w = (.ok (f' w), w))
    (related : ∀ Q, P.Within Q → ∀ w w', w.Resembles Q w' c s → R Q (f w) (f' w')) :
    m.Parallels c s P R m' := fun Q within w w' like =>
  ⟨Q, .refl Q, by rwa [read, read'], by
    rw [read, read']
    exact .ok (related Q within w w' like)⟩

theorem changes {m m' : Run τ Unit} {f f' : World τ → World τ} (changed : ∀ w, m w = (.ok (), f w))
    (changed' : ∀ w, m' w = (.ok (), f' w))
    (like : ∀ Q, P.Within Q → ∀ w w', w.Resembles Q w' c s → (f w).Resembles Q (f' w') c s) :
    m.Parallels c s P Pairing.Same m' := fun Q within w w' before =>
  ⟨Q, .refl Q, by rw [changed, changed']; exact like Q within w w' before, by
    rw [changed, changed']
    exact .ok rfl⟩

end Run.Parallels

structure Context.Resembles (s : ScopeId) (P : Pairing) (x y : Context) : Prop where
  home : x.scope = s
  conduct : x.conduct = y.conduct
  relates : P.Relates x.registries y.registries

namespace Context.Resembles

variable {P : Pairing} {x y : Context} (like : Context.Resembles s P x y)
include like

theorem home' : y.scope = s :=
  (congrArg Context.Conduct.scope like.conduct).symm.trans like.home

theorem calls : x.calls = y.calls := congrArg Context.Conduct.calls like.conduct

theorem accepting? (severity : Severity) :
    x.diagnostics.accepting? severity = y.diagnostics.accepting? severity :=
  congrArg (·.filter (·.accepts severity))
    (congrArg Context.Conduct.errorHandler like.conduct)

end Context.Resembles

structure Scope.Resembles (P : Pairing) (x y : Scope) : Prop where
  stem : x.stem = y.stem
  relates : P.Relates x.registries y.registries

theorem Scope.Resembles.later {P Q : Pairing} {x y : Scope} (like : Scope.Resembles P x y)
    (within : P.Within Q) : Scope.Resembles Q x y :=
  ⟨like.stem, like.relates.later within⟩

namespace Run

variable (c : ContextId) (s : ScopeId) (P : Pairing)

theorem context_parallels :
    (Run.context c : Run τ Context).Parallels c s P (Context.Resembles s) (Run.context c) :=
  .reads (context_apply · c) (context_apply · c) fun _ _ _ _ like =>
    ⟨like.home, like.conduct, like.own⟩

theorem scope_parallels :
    (Run.scope s : Run τ Scope).Parallels c s P Scope.Resembles (Run.scope s) :=
  .reads (scope_apply · s) (scope_apply · s) fun _ _ _ _ like =>
    ⟨like.stem, like.shared⟩

theorem scopeOf_parallels :
    (Run.scopeOf c : Run τ ScopeId).Parallels c s P (fun _ a b => a = s ∧ b = s)
      (Run.scopeOf c) :=
  .reads (scopeOf_apply · c) (scopeOf_apply · c) fun _ _ _ _ like =>
    ⟨like.home, like.home'⟩

variable {c s P}

theorem classOf_parallels {k k' : ClassId} (pair : P.Pairs (.ofClass k) (.ofClass k')) :
    (Run.classOf k : Run τ Class).Parallels c s P (fun _ e e' => e.name = e'.name ∧
      e.trace = e'.trace ∧ e.isStatic = e'.isStatic ∧ e.onEnter = e'.onEnter) (Run.classOf k') :=
  .reads (classOf_apply · k) (classOf_apply · k') fun _ within _ _ like => by
    obtain ⟨name, trace, isStatic, -, onEnter⟩ :=
      Entity.Profile.mk.inj (like.entities _ _ (within _ _ pair))
    exact ⟨name, trace, isStatic, onEnter⟩

theorem functionOf_parallels {f f' : FunctionId} (pair : P.Pairs (.ofFunction f) (.ofFunction f')) :
    (Run.functionOf f : Run τ Function).Parallels c s P (fun _ e e' => e.name = e'.name ∧
      e.trace = e'.trace ∧ e.isStatic = e'.isStatic) (Run.functionOf f') :=
  .reads (functionOf_apply · f) (functionOf_apply · f') fun _ within _ _ like => by
    obtain ⟨name, trace, isStatic, -, -⟩ :=
      Entity.Profile.mk.inj (like.entities _ _ (within _ _ pair))
    exact ⟨name, trace, isStatic⟩

theorem constantOf_parallels {k k' : ConstantId} (pair : P.Pairs (.ofConstant k) (.ofConstant k')) :
    (Run.constantOf k : Run τ Constant).Parallels c s P (fun _ e e' => e.name = e'.name ∧
      e.trace = e'.trace ∧ e.isCaseSensitive = e'.isCaseSensitive) (Run.constantOf k') :=
  .reads (constantOf_apply · k) (constantOf_apply · k') fun _ within _ _ like => by
    obtain ⟨name, trace, -, sensitive, -⟩ :=
      Entity.Profile.mk.inj (like.entities _ _ (within _ _ pair))
    exact ⟨name, trace, sensitive⟩

theorem moduleOf_parallels {m m' : ModuleId} (pair : P.Pairs (.module m) (.module m')) :
    (Run.moduleOf m : Run τ Module).Parallels c s P Pairing.Likens (Run.moduleOf m') :=
  .reads (moduleOf_apply · m) (moduleOf_apply · m') fun _ within _ _ like =>
    like.modules _ _ (within _ _ pair)

theorem modifyContext_parallels {f f' : Context → Context}
    (conduct : ∀ x, (f x).conduct = x.conduct) (conduct' : ∀ x, (f' x).conduct = x.conduct)
    (own : ∀ Q, P.Within Q → ∀ x y : Context, Q.Relates x.registries y.registries →
      Q.Relates (f x).registries (f' y).registries) :
    (Run.modifyContext c f : Run τ Unit).Parallels c s P Pairing.Same (Run.modifyContext c f') :=
  .changes (fun _ => rfl) (fun _ => rfl) fun Q within _ _ like =>
    like.updateContext conduct conduct' (own Q within _ _ like.own)

theorem modifyScope_parallels {f f' : Scope → Scope}
    (like : ∀ Q, P.Within Q → ∀ x y, Scope.Resembles Q x y → Scope.Resembles Q (f x) (f' y)) :
    (Run.modifyScope s f : Run τ Unit).Parallels c s P Pairing.Same (Run.modifyScope s f') :=
  .changes (fun _ => rfl) (fun _ => rfl) fun Q within _ _ before =>
    have after := like Q within _ _ ⟨before.stem, before.shared⟩
    before.updateScope after.stem after.relates

theorem newConstant_preserves (c : ContextId) (k : Constant) :
    (Run.newConstant k : Run τ ConstantId).Preserves c := fun w =>
  { World.Preserves.refl w c with
    entities := fun e known => by
      cases e with
      | ofClass | ofFunction => exact ⟨known, rfl⟩
      | ofConstant a =>
        refine ⟨Pool.has_add _ k a known, ?_⟩
        have same : (w.constants.add k).get a = w.constants.get a := Pool.get_add_of_has _ _ known
        exact congrArg (fun k : Constant =>
          Entity.Profile.mk k.name k.trace true k.isCaseSensitive none) same }

theorem newModule_preserves (c : ContextId) (e : Module) :
    (Run.newModule e : Run τ ModuleId).Preserves c := fun w =>
  { World.Preserves.refl w c with
    modules := fun m known => ⟨Pool.has_add _ e m known, Pool.get_add_of_has _ _ known⟩ }

theorem newConstant_parallels (P : Pairing) (k : Constant) :
    (Run.newConstant k : Run τ ConstantId).Parallels c s P
      (fun Q a b => Q.Pairs (.ofConstant a) (.ofConstant b)) (Run.newConstant k) := by
  intro Q _ w w' like
  have later := like.kept (newConstant_preserves c k w) (newConstant_preserves c k w')
  have fresh : ∀ z, ¬ Q.Pairs (.ofConstant w.constants.next) z := fun z pair =>
    w.constants.ne_next_of_has (like.known _ _ pair).1 rfl
  have fresh' : ∀ z, ¬ Q.Pairs z (.ofConstant w'.constants.next) := fun z pair =>
    w'.constants.ne_next_of_has (like.known _ _ pair).2 rfl
  refine ⟨Q.pair _ _ fresh fresh', Q.within_pair fresh fresh', later.pair fresh fresh'
    ⟨Pool.has_next_add _ _, Pool.has_next_add _ _⟩ ?_ nofun, .ok (.inr ⟨rfl, rfl⟩)⟩
  rintro _ _ ⟨⟩ ⟨⟩
  have same : (w.constants.add k).get w.constants.next =
      (w'.constants.add k).get w'.constants.next := by
    rw [Pool.get_add_next, Pool.get_add_next]
  exact congrArg (fun k : Constant =>
    Entity.Profile.mk k.name k.trace true k.isCaseSensitive none) same

theorem newModule_parallels {e e' : Module} (likens : P.Likens e e') :
    (Run.newModule e : Run τ ModuleId).Parallels c s P
      (fun Q m m' => Q.Pairs (.module m) (.module m')) (Run.newModule e') := by
  intro Q within w w' like
  have later := like.kept (newModule_preserves c e w) (newModule_preserves c e' w')
  have fresh : ∀ z, ¬ Q.Pairs (.module w.modules.next) z := fun z pair =>
    w.modules.ne_next_of_has (like.known _ _ pair).1 rfl
  have fresh' : ∀ z, ¬ Q.Pairs z (.module w'.modules.next) := fun z pair =>
    w'.modules.ne_next_of_has (like.known _ _ pair).2 rfl
  refine ⟨Q.pair _ _ fresh fresh', Q.within_pair fresh fresh', later.pair fresh fresh'
    ⟨Pool.has_next_add _ _, Pool.has_next_add _ _⟩ nofun ?_, .ok (.inr ⟨rfl, rfl⟩)⟩
  rintro _ _ ⟨⟩ ⟨⟩
  show Q.Likens ((w.modules.add e).get _) ((w'.modules.add e').get _)
  rw [Pool.get_add_next, Pool.get_add_next]
  exact likens.later within

end Run

end ScriptHost
