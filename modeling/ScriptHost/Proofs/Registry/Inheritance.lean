import ScriptHost.Proofs.Registry.Constants

set_option autoImplicit false

namespace ScriptHost

open Run

variable {σ τ α β : Type}

structure Context.Profile where
  scope : ScopeId
  overrides : Table Bytes
  searchPath : SearchPath
  classes : Table ClassId
  functions : Table FunctionId
  constants : ConstantSet
  modules : Table ModuleId
  moduleIndex : Table ModuleId

namespace Context

def profile (x : Context) : Profile :=
  ⟨x.scope, x.overrides, x.searchPath, x.classes, x.functions, x.constants, x.modules,
    x.moduleIndex⟩

def Profile.pathless (p : Profile) : Profile := { p with searchPath := .empty }

def Profile.classless (p : Profile) : Profile := { p with classes := .empty }

end Context

namespace World

structure Keeps (view : Context → α) (w w' : World τ) : Prop where
  contexts : ∀ c, w.contexts.has c → w'.contexts.has c ∧ view (w'.context c) = view (w.context c)
  scopes : ∀ c, w.contexts.has c → (w'.scopeOf c).declarations = (w.scopeOf c).declarations
  classes : ∀ k, w.classes.has k →
    w'.classes.has k ∧ (w'.classes.get k).lowerName = (w.classes.get k).lowerName

namespace Keeps

variable {view : Context → α} {u v w : World τ}

theorem refl (view : Context → α) (w : World τ) : w.Keeps view w :=
  ⟨fun _ known => ⟨known, rfl⟩, fun _ _ => rfl, fun _ known => ⟨known, rfl⟩⟩

theorem trans (first : u.Keeps view v) (rest : v.Keeps view w) : u.Keeps view w where
  contexts c known := by
    obtain ⟨there, same⟩ := first.contexts c known
    exact ⟨(rest.contexts c there).1, (rest.contexts c there).2.trans same⟩
  scopes c known := (rest.scopes c (first.contexts c known).1).trans (first.scopes c known)
  classes k known := by
    obtain ⟨there, same⟩ := first.classes k known
    exact ⟨(rest.classes k there).1, (rest.classes k there).2.trans same⟩

theorem imp (keeps : v.Keeps view w) (less : α → β) : v.Keeps (less ∘ view) w :=
  { keeps with
    contexts := fun c known =>
      ⟨(keeps.contexts c known).1, congrArg less (keeps.contexts c known).2⟩ }

theorem updateContext (w : World τ) (c : ContextId) (f : Context → Context)
    (unseen : view (f (w.context c)) = view (w.context c)) (scope : ∀ x, (f x).scope = x.scope) :
    w.Keeps view (w.updateContext c f) where
  contexts d known := by
    refine ⟨(w.contexts.has_modify c d f).trans known, ?_⟩
    rw [context_updateContext]
    split
    next same => rw [← same.1, unseen]
    next => rfl
  scopes d known := by
    have same : ((w.updateContext c f).context d).scope = (w.context d).scope :=
      w.contexts.modify_keeps c d f _ scope
    rw [scopeOf, same]
    rfl
  classes _ known := ⟨known, rfl⟩

end Keeps

end World

structure Host.IsQuiet (h : Host τ) : Prop where
  enterClass : ∀ k c (w : World τ), w.Keeps Context.profile (h.enterClass k c w).2
  loadExtension : ∀ k c (w : World τ), w.Keeps Context.profile (h.loadExtension k c w).2

namespace ClassRegistry

variable {h : Host τ} {c : ContextId} {w v : World τ} {k : ClassId}

theorem enter_keeps (quiet : h.IsQuiet) (entered : enter h c k w = (.ok (), v)) :
    (w.insertClass c k).Keeps Context.profile v := by
  cases own : (w.classes.get k).onEnter with
  | none =>
    rw [enter_hookless h c w own] at entered
    cases entered
    exact .refl _ _
  | some hook =>
    rw [enter_hook h c w own] at entered
    obtain ⟨failure, u, called, rest⟩ := of_bind_ok entered
    have kept := quiet.enterClass hook c (w.insertClass c k)
    rw [called] at kept
    cases failure with
    | none =>
      cases rest
      exact kept
    | some f =>
      obtain ⟨_, _, _, raised⟩ := of_bind_ok rest
      exact absurd raised (Diagnostics.raiseText_unwinds h c (by decide) (by decide) _ _ _ _)

def enterAll (w : World τ) (classes : List ClassId) (t : Table ClassId) : Table ClassId :=
  (classes.map fun k => ((w.classes.get k).lowerName, k)).foldl (fun t e => t.insert e.1 e.2) t

theorem enterClasses_keeps (quiet : h.IsQuiet) (there : w.contexts.has c) (classes : List ClassId)
    (known : ∀ k ∈ classes, w.classes.has k)
    (entered : Execution.enterClasses h c classes w = (.ok (), v)) :
    w.Keeps (Context.Profile.classless ∘ Context.profile) v ∧
      ∀ d, w.contexts.has d → (v.context d).classes =
        if d = c then enterAll w classes (w.context d).classes else (w.context d).classes := by
  induction classes generalizing w with
  | nil =>
    cases entered
    exact ⟨.refl _ _, fun d _ => by simp [enterAll]⟩
  | cons k rest ih =>
    obtain ⟨_, u, first, others⟩ := of_bind_ok entered
    have hooked := enter_keeps quiet first
    have inserted : w.Keeps (Context.Profile.classless ∘ Context.profile) (w.insertClass c k) :=
      .updateContext w c _ rfl fun _ => rfl
    have kept := inserted.trans (hooked.imp Context.Profile.classless)
    obtain ⟨later, tables⟩ := ih (kept.contexts c there).1
      (fun b member => (kept.classes b (known b (List.mem_cons_of_mem _ member))).1) others
    refine ⟨kept.trans later, fun d present => ?_⟩
    -- hooks keep the names of classes, so the rest enters under the names of the start
    have names : enterAll u rest = enterAll w rest := by
      have same : rest.map (fun b => ((u.classes.get b).lowerName, b)) =
          rest.map fun b => ((w.classes.get b).lowerName, b) :=
        List.map_congr_left fun b member => by
          rw [(kept.classes b (known b (List.mem_cons_of_mem _ member))).2]
      unfold enterAll
      rw [same]
    have classes : (u.context d).classes = ((w.insertClass c k).context d).classes :=
      congrArg Context.Profile.classes (hooked.contexts d (inserted.contexts d present).1).2
    rw [tables d (kept.contexts d present).1, names, classes, World.insertClass,
      World.context_updateContext]
    by_cases own : d = c
    · subst own
      simp [there, enterAll]
    · simp [own, Ne.symm own]

theorem get?_enterAll {p : ContextId}
    (sound : ∀ key k, (w.context p).classes.get? key = some k → (w.classes.get k).lowerName = key)
    {classes : List ClassId} (perm : classes.Perm (w.context p).classes.values) (key : Bytes) :
    (enterAll w classes .empty).get? key = (w.context p).classes.get? key := by
  have own : (w.context p).classes.values.map (fun k => ((w.classes.get k).lowerName, k)) =
      (w.context p).classes.entries := by
    rw [Table.values, List.map_map]
    refine (List.map_congr_left fun e member => ?_).trans (List.map_id _)
    have found := Table.lookup_of_mem (w.context p).classes.distinct member
    exact Prod.ext (sound _ _ found) rfl
  have entries : (classes.map fun k => ((w.classes.get k).lowerName, k)).Perm
      (w.context p).classes.entries := own ▸ perm.map _
  have distinct := (entries.map Prod.fst).nodup_iff.2 (w.context p).classes.distinct
  rw [enterAll, Table.get?_foldl_insert _ _ _ distinct, Table.get?_empty, Option.or_none]
  refine Option.ext fun k => ?_
  constructor
  · intro found
    exact Table.lookup_of_mem (w.context p).classes.distinct
      (entries.subset (Table.lookup_mem found))
  · intro found
    exact Table.lookup_of_mem distinct (entries.symm.subset (Table.lookup_mem found))

end ClassRegistry

namespace Execution

variable {h : Host τ} {c p : ContextId} {w v : World τ}

def Equips (c : ContextId) (m : Run τ α) : Prop :=
  ∀ w a v, w.contexts.has c → (w.context c).functions = (w.scopeOf c).functions →
    m w = (.ok a, v) → w.Keeps (Context.Profile.pathless ∘ Context.profile) v

namespace Equips

theorem bind {m : Run τ α} {f : α → Run τ β} (first : Equips c m) (rest : ∀ a, Equips c (f a)) :
    Equips c (m >>= f) := by
  intro w b v there shared result
  obtain ⟨a, u, returned, result⟩ := of_bind_ok result
  have kept := first w a u there shared returned
  obtain ⟨there', same⟩ := kept.contexts c there
  have functions : (u.context c).functions = (w.context c).functions :=
    congrArg Context.Profile.functions same
  have declared : (u.scopeOf c).functions = (w.scopeOf c).functions :=
    congrArg Declarations.functions (kept.scopes c there)
  exact kept.trans (rest a u b v there' (functions.trans (shared.trans declared.symm)) result)

theorem of_read {m : Run τ α} (same : ∀ w, (m w).2 = w) : Equips c m := by
  intro w a v _ _ returned
  have unchanged := same w
  rw [returned] at unchanged
  exact unchanged ▸ .refl _ _

theorem modifyContext (d : ContextId) (f : Context → Context)
    (unseen : ∀ x : Context, (f x).profile.pathless = x.profile.pathless) :
    Equips c (Run.modifyContext d f : Run τ Unit) := by
  rintro w _ _ _ _ ⟨⟩
  exact .updateContext w d f (unseen _) fun x => congrArg Context.Profile.scope (unseen x)

theorem fetchFunction (name : Bytes) :
    Equips c (FunctionRegistry.fetch c name : Run τ (Option FunctionId)) := by
  intro w a v _ shared returned
  have same : v = w := by
    obtain ⟨_, _, same⟩ | ⟨_, same⟩ | ⟨f, absent, found, _⟩ :=
      FunctionRegistry.fetch_cases c name w
    · exact congrArg Prod.snd (returned.symm.trans same)
    · exact congrArg Prod.snd (returned.symm.trans same)
    · rw [shared] at absent
      exact nomatch absent.symm.trans found
  exact same ▸ .refl _ _

end Equips

theorem loadExtensions_equips (quiet : h.IsQuiet) (extensions : List Callback) :
    Equips c (loadExtensions h c extensions) := by
  induction extensions with
  | nil => exact .of_read fun _ => rfl
  | cons k rest ih =>
    refine .bind (fun w _ v _ _ returned => ?_) fun _ => ih
    have kept := (quiet.loadExtension k c w).imp Context.Profile.pathless
    rwa [returned] at kept

theorem setUp_equips (quiet : h.IsQuiet) (scope : Scope) (options : ContextOptions) :
    Equips c (setUp h c scope options) :=
  setUp_closed (P := fun _ m => Equips c m) .bind
    (fun _ => .modifyContext c _ fun _ => rfl) (fun _ => .modifyContext c _ fun _ => rfl)
    (.fetchFunction _) (fun _ => .of_read fun _ => rfl)
    (fun _ => .modifyContext c _ fun _ => rfl) (.modifyContext c _ fun _ => rfl)
    (loadExtensions_equips quiet _)

theorem create_fresh (quiet : h.IsQuiet) {s : ScopeId} {sink : SinkId} {options : ContextOptions}
    (created : create h s sink options w = (.ok c, v)) :
    c = w.contexts.next ∧ v.contexts.has c ∧
      (∃ number globals, (v.context c).profile.pathless =
        (fresh number s (w.scopes.get s) sink globals).profile.pathless) ∧
      w.Keeps (Context.Profile.pathless ∘ Context.profile) v := by
  let number := (w.allocators.get (w.scopes.get s).ids).acquire
  let x := fresh number.1 s (w.scopes.get s) sink w.tables.next
  let u : World τ := { w with
    tables := (w.tables.add .empty).modify w.tables.next (·.insert "GLOBALS" (.table w.tables.next))
    allocators := w.allocators.modify (w.scopes.get s).ids fun _ => number.2 }
  -- the context starts out with what its scope declares, and extensions are loaded into it
  have opens : create h s sink options w =
    (setUp h w.contexts.next (w.scopes.get s) options >>= fun _ => pure w.contexts.next)
      (u.install x) := rfl
  obtain ⟨_, v', done, last⟩ := of_bind_ok (opens.symm.trans created)
  cases last
  have there : (u.install x).contexts.has w.contexts.next := Pool.has_next_add ..
  have own : (u.install x).context w.contexts.next = x := Pool.get_add_next ..
  have kept := setUp_equips quiet _ options _ _ _ there (by rw [World.scopeOf, own]; rfl) done
  have others : w.Keeps (Context.Profile.pathless ∘ Context.profile) (u.install x) :=
    { contexts := fun d known =>
        ⟨Pool.has_add _ _ _ known, congrArg _ (Pool.get_add_of_has _ _ known)⟩
      scopes := fun d known => by
        rw [World.scopeOf, World.context_install u x known]
        rfl
      classes := fun _ known => ⟨known, rfl⟩ }
  obtain ⟨remains, profile⟩ := kept.contexts _ there
  rw [Function.comp_apply, Function.comp_apply, own] at profile
  exact ⟨rfl, remains, ⟨_, _, profile⟩, others.trans kept⟩

structure Inherits (w : World τ) (c p : ContextId) : Prop where
  scope : (w.context c).scope = (w.context p).scope
  overrides : (w.context c).overrides = Table.empty.overlay (w.context p).overrides
  searchPath : (w.context c).searchPath = .ofList (w.context p).searchPath.directories
  classes : ∀ key, (w.context c).classes.get? key = (w.context p).classes.get? key
  functions : (w.context c).functions = (w.scopeOf p).functions.overlay (w.context p).functions
  constants : (w.context c).constants = (w.scopeOf p).constants.overlay (w.context p).constants
  modules : (w.context c).modules = Table.empty.overlay (w.context p).modules
  moduleIndex : (w.context c).moduleIndex = Table.empty.overlay (w.context p).moduleIndex

theorem takeOver_inherits (quiet : h.IsQuiet) {u : World τ} (there : u.contexts.has c)
    (present : u.contexts.has p) (apart : p ≠ c) (own : (u.context c).classes = .empty)
    (sound : ∀ key k, (u.context p).classes.get? key = some k →
      u.classes.has k ∧ (u.classes.get k).lowerName = key)
    (entered : (do enterClasses h c (← ClassRegistry.all p)) u = (.ok (), v)) :
    u.Keeps (Context.Profile.classless ∘ Context.profile) v ∧
      ∀ key, (v.context c).classes.get? key = (v.context p).classes.get? key := by
  rw [bind_ok (show ClassRegistry.all p u = (.ok _, u) from rfl)] at entered
  have perm := List.mergeSort_perm (u.context p).classes.values
    fun a b => Bytes.precedes (u.classes.get a).name (u.classes.get b).name
  obtain ⟨kept, tables⟩ := ClassRegistry.enterClasses_keeps quiet there _ (fun k member => by
    obtain ⟨key, found⟩ := Table.mem_values.1 (perm.subset member)
    exact (sound key k found).1) entered
  refine ⟨kept, fun key => ?_⟩
  rw [tables c there, if_pos rfl, tables p present, if_neg apart, own]
  exact ClassRegistry.get?_enterAll (fun key k found => (sound key k found).2) perm key

def heir (x y : Context) : Context :=
  { x with
    overrides := x.overrides.overlay y.overrides
    searchPath := .ofList y.searchPath.directories
    functions := x.functions.overlay y.functions
    constants := x.constants.overlay y.constants
    modules := x.modules.overlay y.modules
    moduleIndex := x.moduleIndex.overlay y.moduleIndex }

theorem Inherits.of_heir {x y : Context} {number : Nat} {s : ScopeId} {d : Scope} {sink : SinkId}
    {globals : TableId} (blank : x.profile.pathless = (fresh number s d sink globals).profile.pathless)
    (scope : x.scope = y.scope) (functions : (v.scopeOf p).functions = x.functions)
    (constants : (v.scopeOf p).constants = x.constants)
    (child : (v.context c).profile.classless = (heir x y).profile.classless)
    (parent : (v.context p).profile.classless = y.profile.classless)
    (classes : ∀ key, (v.context c).classes.get? key = (v.context p).classes.get? key) :
    Inherits v c p := by
  constructor
  case classes => exact classes
  case scope =>
    exact (congrArg Context.Profile.scope child).trans
      (scope.trans (congrArg Context.Profile.scope parent).symm)
  case searchPath =>
    rw [show (v.context p).searchPath = _ from congrArg Context.Profile.searchPath parent]
    exact congrArg Context.Profile.searchPath child
  case overrides =>
    rw [show (v.context p).overrides = _ from congrArg Context.Profile.overrides parent,
      ← show x.overrides = Table.empty from congrArg Context.Profile.overrides blank]
    exact congrArg Context.Profile.overrides child
  case functions =>
    rw [functions, show (v.context p).functions = _ from congrArg Context.Profile.functions parent]
    exact congrArg Context.Profile.functions child
  case constants =>
    rw [constants, show (v.context p).constants = _ from congrArg Context.Profile.constants parent]
    exact congrArg Context.Profile.constants child
  case modules =>
    rw [show (v.context p).modules = _ from congrArg Context.Profile.modules parent,
      ← show x.modules = Table.empty from congrArg Context.Profile.modules blank]
    exact congrArg Context.Profile.modules child
  case moduleIndex =>
    rw [show (v.context p).moduleIndex = _ from congrArg Context.Profile.moduleIndex parent,
      ← show x.moduleIndex = Table.empty from congrArg Context.Profile.moduleIndex blank]
    exact congrArg Context.Profile.moduleIndex child

theorem createChild_inherits (quiet : h.IsQuiet) (sound : w.Sound) (known : w.contexts.has p)
    {options : ContextOptions} (made : createChild h p options w = (.ok c, v)) :
    Inherits v c p ∧ (v.context p).constants = (w.context p).constants ∧
      (v.scopeOf p).declarations = (w.scopeOf p).declarations := by
  rw [createChild, bind_ok (context_apply w p)] at made
  obtain ⟨d, u, created, rest⟩ := of_bind_ok made
  obtain ⟨next, there, ⟨number, globals, blank⟩, kept⟩ := create_fresh quiet created
  have apart : p ≠ d := next ▸ Pool.ne_next_of_has _ known
  obtain ⟨present, parent⟩ := kept.contexts p known
  have declared := kept.scopes p known
  rw [bind_ok (context_apply u p), bind_ok (modifyContext_apply u _ _)] at rest
  generalize inherited : u.updateContext d _ = u' at rest
  have ofParent : u'.context p = u.context p := by
    rw [← inherited, World.context_updateContext, if_neg fun both => apart both.1.symm]
  have ofChild : u'.context d = heir (u.context d) (u.context p) := by
    rw [← inherited, World.context_updateContext, if_pos ⟨rfl, there⟩, heir]
  obtain ⟨classes, u'', all, rest⟩ := of_bind_ok rest
  obtain ⟨_, v', entered, last⟩ := of_bind_ok rest
  cases last
  have entered : (do enterClasses h c (← ClassRegistry.all p)) u' = (.ok (), v) :=
    (bind_ok all).trans entered
  -- the classes are entered under the names that they have in the parent, as they are its own
  have names (key : Bytes) (k : ClassId) (found : (u'.context p).classes.get? key = some k) :
      u'.classes.has k ∧ (u'.classes.get k).lowerName = key := by
    rw [ofParent, show (u.context p).classes = (w.context p).classes from
      congrArg Context.Profile.classes parent] at found
    obtain ⟨entry, own⟩ := (sound.contexts p).declarations.classes key k found
    obtain ⟨later, lower⟩ := kept.classes k entry
    rw [← inherited]
    exact ⟨later, lower.trans own⟩
  have still {d : ContextId} (known : u.contexts.has d) : u'.contexts.has d := by
    rw [← inherited]
    exact (Pool.has_modify ..).trans known
  obtain ⟨unchanged, classes⟩ := takeOver_inherits quiet (still there) (still present) apart
    (by rw [ofChild]; exact congrArg Context.Profile.classes blank) names entered
  have ends := (unchanged.contexts p (still present)).2
  have child := (unchanged.contexts c (still there)).2
  rw [Function.comp_apply, Function.comp_apply, ofParent] at ends
  rw [Function.comp_apply, Function.comp_apply, ofChild] at child
  have shared : (v.scopeOf p).declarations = (w.scopes.get (w.context p).scope).declarations := by
    rw [unchanged.scopes p (still present), World.scopeOf, ofParent, ← inherited]
    exact declared
  have functions : (v.scopeOf p).functions = (u.context c).functions :=
    (congrArg Declarations.functions shared).trans (congrArg Context.Profile.functions blank).symm
  have constants : (v.scopeOf p).constants = (u.context c).constants :=
    (congrArg Declarations.constants shared).trans (congrArg Context.Profile.constants blank).symm
  have scope : (u.context c).scope = (u.context p).scope :=
    (congrArg Context.Profile.scope blank).trans (congrArg Context.Profile.scope parent).symm
  exact ⟨.of_heir blank scope functions constants child ends classes,
    (congrArg Context.Profile.constants ends).trans (congrArg Context.Profile.constants parent),
    shared⟩

end Execution

namespace ConstantSet

variable {own shared : ConstantSet} {name : Bytes}

structure Masks (own shared : ConstantSet) (name : Bytes) : Prop where
  inexact : own.exact.get? name = none
  folded : (own.folded.get? name.lower).isSome
  exact : (shared.exact.get? name).isSome

instance (own shared : ConstantSet) (name : Bytes) : Decidable (own.Masks shared name) :=
  decidable_of_iff (_ ∧ _ ∧ _)
    ⟨fun ⟨inexact, folded, exact⟩ => ⟨inexact, folded, exact⟩,
      fun ⟨inexact, folded, exact⟩ => ⟨inexact, folded, exact⟩⟩

theorem Masks.resolve (masks : own.Masks shared name) :
    own.resolve shared name = own.folded.get? name.lower := by
  obtain ⟨k, folded⟩ := Option.isSome_iff_exists.1 masks.folded
  simp [ConstantSet.resolve, find?, masks.inexact, folded]

theorem resolve_overlay (own shared : ConstantSet) (name : Bytes) :
    (shared.overlay own).resolve shared name =
      if own.Masks shared name then shared.exact.get? name else own.resolve shared name := by
  have upper : (shared.overlay own).exact.get? name = (own.exact.get? name).or
      (shared.exact.get? name) := Table.get?_overlay ..
  have lower : (shared.overlay own).folded.get? name.lower = (own.folded.get? name.lower).or
      (shared.folded.get? name.lower) := Table.get?_overlay ..
  cases inexact : own.exact.get? name with
  | some k =>
    have visible : ¬ own.Masks shared name := fun masks => by
      cases inexact.symm.trans masks.inexact
    simp [visible, resolve, find?, upper, inexact]
  | none =>
    cases exact : shared.exact.get? name with
    -- the overlay finds the constant of the scope by its exact name before it folds the name
    | some d =>
      have met : (shared.overlay own).resolve shared name = some d := by
        simp [resolve, find?, upper, inexact, exact]
      rw [met]
      split
      next => rfl
      next visible =>
        have unfolded : own.folded.get? name.lower = none := Option.not_isSome_iff_eq_none.1
          fun folded => visible ⟨inexact, folded, Option.isSome_of_eq_some exact⟩
        simp [resolve, find?, inexact, unfolded, exact]
    | none =>
      have visible : ¬ own.Masks shared name := fun masks => by
        have there := masks.exact
        rw [exact] at there
        cases there
      rw [if_neg visible]
      cases folded : own.folded.get? name.lower <;>
        simp [resolve, find?, upper, lower, inexact, exact, folded]

end ConstantSet

theorem SearchPath.directories_addAll (p : SearchPath) (directories : List Bytes)
    (distinct : (p.directories ++ directories).Nodup) :
    (p.addAll directories).directories = p.directories ++ directories := by
  induction directories generalizing p with
  | nil => simp [addAll]
  | cons d rest ih =>
    have new : d ∉ p.directories := fun there =>
      (List.nodup_append.1 distinct).2.2 d there d List.mem_cons_self rfl
    have added : (p.add d).directories = p.directories ++ [d] := by simp [directories_add, new]
    have later := ih (p.add d) (by rw [added]; simpa using distinct)
    rw [added] at later
    simpa [addAll] using later

theorem SearchPath.directories_ofList (p : SearchPath) :
    (ofList p.directories).directories = p.directories.filter (!·.isEmpty) :=
  directories_addAll empty _ (p.distinct.filter _)

section Answers

variable {w : World τ} {c p : ContextId}

theorem FunctionRegistry.fetch_result (c : ContextId) (name : Bytes) (w : World τ) :
    (fetch c name w).1 = .ok (((w.context c).functions.get? (withoutSeparator name).lower).or
      ((w.scopeOf c).functions.get? (withoutSeparator name).lower)) := by
  rw [fetch, bind_ok (context_apply w c)]
  cases loaded : (w.context c).functions.get? (withoutSeparator name).lower with
  | some f => rfl
  | none =>
    dsimp only
    rw [bind_ok (scope_apply w _)]
    unfold World.scopeOf
    cases (w.scopes.get (w.context c).scope).functions.get? (withoutSeparator name).lower <;> rfl

theorem Settings.lookup_apply (c : ContextId) (key : Bytes) (w : World τ) :
    lookup c key w =
      (.ok (((w.context c).overrides.get? key).or ((w.scopeOf c).defaults.get? key)), w) := by
  rw [lookup, bind_ok (context_apply w c)]
  cases (w.context c).overrides.get? key <;> rfl

namespace Execution.Inherits

variable (inherits : Inherits w c p)
include inherits

theorem scopeOf : w.scopeOf c = w.scopeOf p := by
  rw [World.scopeOf, inherits.scope, World.scopeOf]

theorem findClass (h : Host τ) (name : Bytes) :
    (∃ found, ClassRegistry.find h c name w = (.ok found, w) ∧
      ClassRegistry.find h p name w = (.ok found, w)) ∨
    ∃ k, ∀ d, d = c ∨ d = p →
      ClassRegistry.find h d name w = (ClassRegistry.enter h d k >>= fun _ => pure (some k)) w := by
  have same := inherits.classes (withoutSeparator name).lower
  cases loaded : (w.context p).classes.get? (withoutSeparator name).lower with
  | some k =>
    exact .inl ⟨some k, ClassRegistry.find_loaded h c w (same.trans loaded),
      ClassRegistry.find_loaded h p w loaded⟩
  | none =>
    have searched (d : ContextId) (either : d = c ∨ d = p) : ClassRegistry.find h d name w =
        (((w.scopeOf p).classes.get? (withoutSeparator name).lower).filter
          fun k => (w.classes.get k).isStatic).elim (.ok none, w)
            fun k => (ClassRegistry.enter h d k >>= fun _ => pure (some k)) w := by
      unfold ClassRegistry.find
      rcases either with rfl | rfl
      · rw [ClassRegistry.findLower_absent h (same.trans loaded), inherits.scopeOf]
      · exact ClassRegistry.findLower_absent h loaded
    cases shared : ((w.scopeOf p).classes.get? (withoutSeparator name).lower).filter
      fun k => (w.classes.get k).isStatic with
    | none =>
      rw [shared] at searched
      exact .inl ⟨none, searched c (.inl rfl), searched p (.inr rfl)⟩
    | some k =>
      rw [shared] at searched
      exact .inr ⟨k, searched⟩

theorem fetchFunction (name : Bytes) :
    (FunctionRegistry.fetch c name w).1 = (FunctionRegistry.fetch p name w).1 := by
  rw [FunctionRegistry.fetch_result, FunctionRegistry.fetch_result, inherits.scopeOf,
    inherits.functions, Table.get?_overlay]
  cases (w.context p).functions.get? (withoutSeparator name).lower <;> simp

theorem lookupSetting (key : Bytes) :
    Settings.lookup c key w = Settings.lookup p key w := by
  rw [Settings.lookup_apply, Settings.lookup_apply, inherits.scopeOf, inherits.overrides,
    Table.get?_overlay, Table.get?_empty, Option.or_none]

theorem module (name : Bytes) :
    (w.context c).modules.get? name = (w.context p).modules.get? name := by
  rw [inherits.modules, Table.get?_overlay, Table.get?_empty, Option.or_none]

theorem moduleByIndex (index : Bytes) : Modules.byIndex c index w = Modules.byIndex p index w := by
  rw [Modules.byIndex, bind_ok (context_apply w c), Modules.byIndex, bind_ok (context_apply w p),
    inherits.moduleIndex, Table.get?_overlay, Table.get?_empty, Option.or_none, inherits.scope]

theorem constantAt (name : Bytes) : w.constantAt c name =
    if (w.context p).constants.Masks (w.scopeOf p).constants (withoutSeparator name) then
      (w.scopeOf p).constants.exact.get? (withoutSeparator name)
    else w.constantAt p name := by
  rw [World.constantAt, inherits.scopeOf, inherits.constants, ConstantSet.resolve_overlay]
  rfl

end Execution.Inherits

end Answers

/-- A child finds what its parent finds, when the hooks of classes and of extensions touch neither
declarations nor what contexts have. Only a constant of the scope that the parent has masked is
found by the child. A class that is still to enter both contexts is the same one; whether it can be
set up is up to its hook. -/
theorem Script.child_finds {ρ : Type} (s : Script σ) (depth : Nat) (code : Code σ ρ)
    (files : FileTree) (own : σ) {e : Moment σ} (member : e ∈ s.journal depth code files own)
    {w w' : Recorded σ} (same : w.unrecorded = e.world) {p c : ContextId} (known : w.contexts.has p)
    {h : Host (Ledger σ)} (quiet : h.IsQuiet) {options : ContextOptions}
    (made : Execution.createChild h p options w = (.ok c, w')) :
    (∀ name, (∃ found, ClassRegistry.find h c name w' = (.ok found, w') ∧
        ClassRegistry.find h p name w' = (.ok found, w')) ∨
      ∃ k, ∀ d, d = c ∨ d = p → ClassRegistry.find h d name w' =
        (ClassRegistry.enter h d k >>= fun _ => pure (some k)) w') ∧
    (∀ name, (FunctionRegistry.fetch c name w').1 = (FunctionRegistry.fetch p name w').1) ∧
    (∀ name, (ConstantRegistry.find c name w').1 =
      if (w'.context p).constants.Masks (w'.scopeOf p).constants (withoutSeparator name) then
        .ok ((w'.scopeOf p).constants.exact.get? (withoutSeparator name))
      else (ConstantRegistry.find p name w').1) ∧
    (∀ name, (w'.context p).constants.Masks (w'.scopeOf p).constants (withoutSeparator name) →
      (ConstantRegistry.find c name w').1 ≠ (ConstantRegistry.find p name w').1) ∧
    (∀ key, Settings.lookup c key w' = Settings.lookup p key w') ∧
    (∀ name, (w'.context c).modules.contains name = (w'.context p).modules.contains name) ∧
    (∀ index, Modules.byIndex c index w' = Modules.byIndex p index w') ∧
    (w'.context c).searchPath.directories =
      (w'.context p).searchPath.directories.filter (!·.isEmpty) := by
  have sound : w.Sound := .of_unrecorded (same ▸ (Script.regular_of_journal member).sound)
  obtain ⟨inherits, constants, declared⟩ := Execution.createChild_inherits quiet sound known made
  have shared : (w'.scopeOf p).constants = (w.scopeOf p).constants :=
    congrArg Declarations.constants declared
  refine ⟨inherits.findClass h, inherits.fetchFunction, fun name => ?_, fun name masks equal => ?_,
    inherits.lookupSetting, fun name => congrArg Option.isSome (inherits.module name),
    inherits.moduleByIndex, ?_⟩
  · rw [ConstantRegistry.find_apply, ConstantRegistry.find_apply, inherits.constantAt]
    split <;> rfl
  · rw [ConstantRegistry.find_apply, ConstantRegistry.find_apply, inherits.constantAt, if_pos masks,
      World.constantAt, masks.resolve] at equal
    obtain ⟨k, folded⟩ := Option.isSome_iff_exists.1 masks.folded
    have exact := (Except.ok.inj equal).trans folded
    rw [shared] at exact
    rw [constants] at folded
    have insensitive := ((sound.contexts p).declarations.folded _ _ folded).2.1
    have sensitive := ((sound.scopes _).exact _ _ exact).2.1
    cases insensitive.symm.trans sensitive
  · rw [inherits.searchPath, SearchPath.directories_ofList]

theorem Host.idle_isQuiet : (Host.idle : Host τ).IsQuiet :=
  ⟨fun _ _ w => .refl _ w, fun _ _ w => .refl _ w⟩

def furnished : List (Moment Unit) :=
  Script.journal ⟨1, fun _ => .done (.error .exhausted)⟩ 1
    (.each () (oneContext ++ [newPlainClass "foo", .act ⟨0⟩ (.registerClass ⟨0⟩),
      .newFunction ⟨"bar", false, {}, none⟩, .act ⟨0⟩ (.registerFunction ⟨0⟩),
      .act ⟨0⟩ (.defineConstant "baz" .null false)]))
    (FileTree.make "/") ()

theorem child_finds_furnished : ∃ e ∈ furnished, ∃ w' : Recorded Unit,
    Execution.createChild .idle ⟨0⟩ {} e.world.recorded = (.ok ⟨1⟩, w') ∧
    (FunctionRegistry.fetch ⟨1⟩ "BAR" w').1 = (FunctionRegistry.fetch ⟨0⟩ "BAR" w').1 ∧
    (FunctionRegistry.fetch ⟨0⟩ "BAR" w').1 = .ok (some ⟨0⟩) := by
  obtain ⟨e, member, known, made, own⟩ : ∃ e ∈ furnished, e.world.contexts.has ⟨0⟩ ∧
      (Execution.createChild .idle ⟨0⟩ {} e.world.recorded).1.toOption = some ⟨1⟩ ∧
      (FunctionRegistry.fetch ⟨0⟩ "BAR"
        (Execution.createChild .idle ⟨0⟩ {} e.world.recorded).2).1.toOption = some (some ⟨0⟩) := by
    decide +kernel
  have made : Execution.createChild .idle ⟨0⟩ {} e.world.recorded = (.ok ⟨1⟩, _) :=
    (Prod.eta _).symm.trans (congrArg (·, _) (eq_ok_of_toOption made))
  have finds := Script.child_finds _ _ _ _ _ member (w := e.world.recorded) rfl known
    Host.idle_isQuiet made
  exact ⟨e, member, _, made, finds.2.1 "BAR", eq_ok_of_toOption own⟩

def maskedConstants : List (Moment Unit) :=
  Script.journal ⟨1, fun _ => .done (.error .exhausted)⟩ 1
    (.each () (oneContext ++ [.act ⟨0⟩ (.defineConstant "foo" (.bool false) false),
      .newConstant ⟨"FOO", .bool true, true, {}⟩, .declareConstant ⟨0⟩ ⟨1⟩]))
    (FileTree.make "/") ()

theorem child_finds_masked : ∃ e ∈ maskedConstants, ∃ w',
    Execution.createChild .idle ⟨0⟩ {} e.world = (.ok ⟨1⟩, w') ∧
    (ConstantRegistry.find ⟨0⟩ "FOO" w').1 = .ok (some ⟨0⟩) ∧
    (ConstantRegistry.find ⟨1⟩ "FOO" w').1 = .ok (some ⟨1⟩) := by
  obtain ⟨e, member, made, ofParent, ofChild⟩ : ∃ e ∈ maskedConstants,
      (Execution.createChild .idle ⟨0⟩ {} e.world).1.toOption = some ⟨1⟩ ∧
      (Execution.createChild .idle ⟨0⟩ {} e.world).2.constantAt ⟨0⟩ "FOO" = some ⟨0⟩ ∧
      (Execution.createChild .idle ⟨0⟩ {} e.world).2.constantAt ⟨1⟩ "FOO" = some ⟨1⟩ := by
    decide +kernel
  refine ⟨e, member, (Execution.createChild .idle ⟨0⟩ {} e.world).2, ?_, ?_, ?_⟩
  · exact (Prod.eta _).symm.trans (congrArg (·, _) (eq_ok_of_toOption made))
  · rw [ConstantRegistry.find_apply, ofParent]
  · rw [ConstantRegistry.find_apply, ofChild]

end ScriptHost
