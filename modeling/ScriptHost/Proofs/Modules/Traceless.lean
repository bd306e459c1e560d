import ScriptHost.Proofs.Modules.Repetition
import ScriptHost.Proofs.Modules.Knowledge

set_option autoImplicit false

namespace ScriptHost

open Run

variable {τ : Type} {w w' v : World τ} {c : ContextId} {s : ScopeId} {h : Host τ} {P Q : Pairing}
  {m m' : ModuleId}

theorem Run.get_parallels (P : Pairing) : (get : Run τ (World τ)).Parallels c s P
    (fun Q w w' => w.Resembles Q w' c s) get :=
  .reads (fun _ => rfl) (fun _ => rfl) fun _ _ _ _ like => like

namespace World.Resembles

theorem updateModule (like : w.Resembles P w' c s) (pair : P.Pairs (.module m) (.module m'))
    {f f' : Module → Module} (likens : P.Likens (f (w.modules.get m)) (f' (w'.modules.get m'))) :
    World.Resembles P { w with modules := w.modules.modify m f }
      { w' with modules := w'.modules.modify m' f' } c s :=
  have known (w : World τ) (m : ModuleId) (f : Module → Module) (x : Item) :
      x.isKnown { w with modules := w.modules.modify m f } = x.isKnown w := by
    cases x with
    | entity e => rfl
    | module a => exact w.modules.has_modify m a f
  { like with
    known := fun x y pair => by
      rw [known, known]
      exact like.known x y pair
    modules := fun a a' other => by
      have both := P.unique pair other
      have there := like.known _ _ pair
      dsimp only
      by_cases own : m = a
      · subst own
        cases both.1 rfl
        rwa [Pool.get_modify_self _ _ _ there.1, Pool.get_modify_self _ _ _ there.2]
      · have own' : m' ≠ a' := fun same => own (Item.module.inj (both.2 (congrArg _ same)))
        rw [Pool.get_modify_of_ne _ _ own, Pool.get_modify_of_ne _ _ own']
        exact like.modules a a' other }

theorem obstacle? (like : w.Resembles P w' c s) (d : StoreId) (action : StoreAction) :
    Connection.obstacle? w (w.stores.get d) action =
      Connection.obstacle? w' (w'.stores.get d) action := by
  rw [Connection.obstacle?, Connection.obstacle?, like.stores, like.overwritten]

end World.Resembles

namespace Connection

theorem fetch_parallels (P : Pairing) (d : StoreId) (name digest : Bytes) :
    (fetch d name digest : Run τ (Except StoreError (Option Bytes))).Parallels c s P Pairing.Same
      (fetch d name digest) := by
  refine .bind (get_parallels P) fun Q _ w w' like => ?_
  dsimp only
  rw [like.obstacle?, like.stores, like.databases]
  cases obstacle? w' (w'.stores.get d) .query <;> exact .value fun _ _ => rfl

theorem save_parallels (P : Pairing) (d : StoreId) (name digest payload : Bytes) :
    (save d name digest payload : Run τ (Except StoreError Unit)).Parallels c s P Pairing.Same
      (save d name digest payload) := by
  intro Q _ w w' like
  rw [save, changing, bind_ok (get_apply w), bind_ok (get_apply w')]
  rw [like.obstacle?, like.stores, like.databases]
  cases obstacle? w' (w'.stores.get d) .save with
  | some e => exact ⟨Q, .refl Q, like, .ok rfl⟩
  | none =>
    dsimp only
    split
    next => exact ⟨Q, .refl Q, like, .ok rfl⟩
    next =>
      cases (do return ((), ← (w'.databases.get (w'.stores.get d).database).save
        (w'.stores.get d).now name digest payload) : Except StoreError (Unit × Database)) with
      | error e => exact ⟨Q, .refl Q, like, .ok rfl⟩
      | ok kept =>
        obtain ⟨_, rows⟩ := kept
        exact ⟨Q, .refl Q, { like with stores := rfl, databases := rfl }, .ok rfl⟩

end Connection

namespace Modules

theorem modifyModule_parallels (pair : P.Pairs (.module m) (.module m')) {f f' : Module → Module}
    (likens : ∀ Q, P.Within Q → ∀ e e', Q.Likens e e' → Q.Likens (f e) (f' e')) :
    (modifyModule m f : Run τ Unit).Parallels c s P Pairing.Same (modifyModule m' f') :=
  .changes (fun _ => rfl) (fun _ => rfl) fun Q within _ _ like =>
    have pair := within _ _ pair
    like.updateModule pair (likens Q within _ _ (like.modules _ _ pair))

theorem mint_parallels (P : Pairing) :
    (mint : Run τ Bytes).Parallels c s P Pairing.Same mint := by
  intro Q _ w w' like
  refine ⟨Q, .refl Q, { like with minted := congrArg (· + 1) like.minted }, .ok ?_⟩
  rw [like.minted]

theorem publishIn_relates (like : w.Resembles P w' c s) (pair : P.Pairs (.module m) (.module m')) :
    P.Relates (publishIn w m (w.scopes.get s)).registries
      (publishIn w' m' (w'.scopes.get s)).registries := by
  have likens := like.modules _ _ pair
  constructor
  case classes =>
    -- entities that are paired have one profile, so they are entered under one name
    refine like.shared.classes.enterAll (fun k k' pair => ?_) likens.classes
    have profile := like.entities _ _ pair
    exact ⟨congrArg (·.isStatic) profile, congrArg Bytes.lower (congrArg (·.name) profile)⟩
  case functions =>
    refine like.shared.functions.enterAll (fun f f' pair => ?_) likens.functions
    have profile := like.entities _ _ pair
    exact ⟨congrArg (·.isStatic) profile, congrArg Bytes.lower (congrArg (·.name) profile)⟩
  case constants =>
    refine List.rel_foldl (fun d d' sets k k' pair => ?_) like.shared.constants likens.constants
    have profile := like.entities _ _ pair
    exact (ConstantRegistry.enterSet_pairs sets (congrArg (·.name) profile)
      (congrArg (·.isCaseSensitive) profile) pair).2
  case modules =>
    show P.Tables .module (if (w.modules.get m).name.isEmpty then _ else _)
      (if (w'.modules.get m').name.isEmpty then _ else _)
    rw [likens.name]
    split
    next => exact like.shared.modules
    next => exact like.shared.modules.insert pair _
  case moduleIndex =>
    show P.Tables .module (Table.insert _ (w.modules.get m).internalName m) _
    rw [likens.internalName]
    exact like.shared.moduleIndex.insert pair _

theorem conclude_parallels (source : Source) (pair : P.Pairs (.module m) (.module m')) :
    (conclude s source m : Run τ Unit).Parallels c s P Pairing.Same (conclude s source m') := by
  have named (Q : Pairing) (within : P.Within Q) (name internalName : Bytes) : (do
      modifyModule m fun x => { x with name, internalName }
      let w ← get
      Run.modifyScope s (publishIn w m) : Run τ Unit).Parallels c s Q Pairing.Same (do
      modifyModule m' fun x => { x with name, internalName }
      let w ← get
      Run.modifyScope s (publishIn w m')) := by
    refine .bind (modifyModule_parallels (within _ _ pair) fun _ _ e e' likens =>
      { likens with name := rfl, internalName := rfl }) fun O wide _ _ _ => ?_
    exact .changes (fun _ => rfl) (fun _ => rfl) fun N wider w w' like =>
      like.updateScope like.stem (publishIn_relates like (wider _ _ (wide _ _ (within _ _ pair))))
  refine .bind (moduleOf_parallels pair) fun Q within e e' likens => ?_
  rw [likens.name, likens.internalName]
  cases e'.internalName.isEmpty with
  | false => exact named Q within _ _
  | true =>
    refine .bind (mint_parallels Q) fun O wide n n' same => ?_
    cases same
    exact named O (within.trans wide) _ _

section Loading

variable (repeats : h.Repeats c s) {x y : Scope}
include repeats

theorem fetchCached_parallels (P : Pairing) (cache : ModuleCache) (source : Source) :
    (fetchCached h cache source).Parallels c s P Pairing.Same (fetchCached h cache source) := by
  cases cache with
  | store d =>
    refine .bind (Connection.fetch_parallels P d source.name _) fun Q _ result result' same => ?_
    cases same
    cases result <;> exact .value fun _ _ => rfl
  | external k =>
    refine .bind (repeats.fetchCached P k source.name _) fun Q _ result result' same => ?_
    cases same
    cases result <;> exact .value fun _ _ => rfl

theorem saveCached_parallels (P : Pairing) (cache : ModuleCache) (source : Source)
    (payload : Bytes) : (saveCached h cache source payload).Parallels c s P Pairing.Same
      (saveCached h cache source payload) := by
  cases cache with
  | store d =>
    exact .bind (Connection.save_parallels P d source.name _ payload) fun _ _ _ _ _ =>
      .value fun _ _ => rfl
  | external k =>
    exact .bind (repeats.saveCached P k source.name _ payload) fun _ _ _ _ _ =>
      .value fun _ _ => rfl

omit repeats in
theorem keeping?_congr (like : Scope.Resembles P x y) (source : Source) :
    keeping? x source = keeping? y source := by
  rw [keeping?, keeping?, show x.compiler = _ from congrArg (·.1) like.stem,
    show x.cache = _ from congrArg (·.2.1) like.stem]
  rfl

theorem loadPrecompiled_parallels (like : Scope.Resembles P x y) (source : Source) :
    (loadPrecompiled h x c source).Parallels c s P (fun Q => Ends (Pairing.Found .module Q))
      (loadPrecompiled h y c source) := by
  unfold loadPrecompiled
  rw [keeping?_congr like]
  cases keeping? y source with
  | none => exact .value fun _ _ => .ok .none
  | some keeping =>
    refine .bind (fetchCached_parallels repeats P keeping.2 source) fun Q _ found found' same => ?_
    cases same
    cases found with
    | none => exact .value fun _ _ => .ok .none
    | some payload =>
      refine .bind (repeats.undump Q keeping.1.callback source payload)
        fun O _ read read' loads => ?_
      cases loads with
      | ok pair => exact .value fun _ wide => .ok (.some (wide _ _ pair))
      | error f => exact .value fun _ _ => .error _

theorem storePrecompiled_parallels (like : Scope.Resembles P x y) (source : Source)
    (pair : P.Pairs (.module m) (.module m')) : (storePrecompiled h x source m).Parallels c s P
      Pairing.Same (storePrecompiled h y source m') := by
  unfold storePrecompiled
  rw [keeping?_congr like]
  cases keeping? y source with
  | none => exact .value fun _ _ => rfl
  | some keeping =>
    refine .bind (repeats.dump P keeping.1.callback m m' pair) fun Q _ dumped dumped' same => ?_
    cases same
    cases dumped with
    | error => exact .value fun _ _ => rfl
    | ok payload => exact saveCached_parallels repeats Q keeping.2 source payload

theorem loadOrCompile_parallels (like : Scope.Resembles P x y) (source : Source) :
    (loadOrCompile h x c source).Parallels c s P Pairing.Loads (loadOrCompile h y c source) := by
  refine .bind (loadPrecompiled_parallels repeats like source) fun Q within found found' ends => ?_
  cases ends with
  | error e => exact .value fun _ _ => .error e
  | ok found =>
    cases found with
    | some pair => exact .value fun _ wide => .ok (wide _ _ pair)
    | none =>
      dsimp only
      rw [show x.compiler = y.compiler from congrArg (·.1) like.stem]
      cases y.compiler with
      | none => exact .value fun _ _ => .error _
      | some compiler =>
        refine .bind (repeats.compile Q compiler.callback source)
          fun O wide result result' loads => ?_
        cases loads with
        | error f => exact .value fun _ _ => .error _
        | ok pair =>
          have later := like.later (within.trans wide)
          exact .bind (storePrecompiled_parallels repeats later source pair) fun N wider _ _ _ =>
            .value fun _ widest => .ok (widest _ _ (wider _ _ pair))

end Loading

theorem awaitScope_parallels (s : ScopeId) (P : Pairing) :
    (awaitScope s : Run τ Scope).Parallels c s P Scope.Resembles (awaitScope s) := by
  refine .bind (scope_parallels c s P) fun Q _ x y like => ?_
  rw [show x.isImporting = y.isImporting from congrArg (·.2.2) like.stem]
  cases y.isImporting with
  | true => exact .unwinds .exhausted
  | false => exact .value fun _ wide => like.later wide

theorem setImporting_parallels (s : ScopeId) (P : Pairing) (isImporting : Bool) :
    (setImporting s isImporting : Run τ Unit).Parallels c s P Pairing.Same
      (setImporting s isImporting) :=
  modifyScope_parallels fun _ _ _ _ like =>
    ⟨congrArg (fun stem => (stem.1, stem.2.1, isImporting)) like.stem, like.relates⟩

section Importing

variable (repeats : h.Repeats c s)

include repeats in
theorem importInScope_parallels (P : Pairing) (source : Source) :
    (importInScope h s c source).Parallels c s P Pairing.Loads (importInScope h s c source) := by
  refine .bind (awaitScope_parallels s P) fun Q _ x y like => ?_
  -- both scopes have the source or neither has; the two lookups go on together
  have known : Q.Found .module
      (if source.name.isEmpty then none else x.modules.get? source.name)
      (if source.name.isEmpty then none else y.modules.get? source.name) :=
    like.relates.modules.named source.name
  dsimp only
  generalize (if source.name.isEmpty then none else x.modules.get? source.name) = a at known ⊢
  generalize (if source.name.isEmpty then none else y.modules.get? source.name) = b at known ⊢
  cases known with
  | some pair => exact .value fun _ wide => .ok (wide _ _ pair)
  | none =>
    refine .bind (setImporting_parallels s Q true) fun O within _ _ _ => ?_
    refine .ensuring (fun wide loads => ?_) ?_ fun N _ => setImporting_parallels s N false
    · cases loads with
      | ok pair => exact .ok (wide _ _ pair)
      | error e => exact .error e
    · refine .bind (loadOrCompile_parallels repeats (like.later within) source)
        fun N wide loaded loaded' loads => ?_
      cases loads with
      | error e => exact .value fun _ _ => .error e
      | ok pair =>
        exact .bind (conclude_parallels source pair) fun M wider _ _ _ =>
          .value fun _ widest => .ok (widest _ _ (wider _ _ pair))

variable (discreet : h.IsDiscreet c)
include repeats discreet

theorem importSource_parallels (P : Pairing) (source : Source) :
    (importSource h c source).Parallels c s P Pairing.Loads (importSource h c source) := by
  refine .bind (context_parallels c s P) fun Q _ x y like => ?_
  have known : Q.Found .module
      (if source.name.isEmpty then none else x.modules.get? source.name)
      (if source.name.isEmpty then none else y.modules.get? source.name) :=
    like.relates.modules.named source.name
  rw [like.home, like.home']
  dsimp only
  generalize (if source.name.isEmpty then none else x.modules.get? source.name) = a at known ⊢
  generalize (if source.name.isEmpty then none else y.modules.get? source.name) = b at known ⊢
  cases known with
  | some pair => exact .value fun _ wide => .ok (wide _ _ pair)
  | none =>
    refine .bind (importInScope_parallels repeats Q source) fun O _ result result' loads => ?_
    cases loads with
    | error e => exact .value fun _ _ => .error e
    | ok pair =>
      exact .bind (register_parallels discreet repeats pair) fun N wide _ _ _ =>
        .value fun _ wider => .ok (wider _ _ (wide _ _ pair))

end Importing

end Modules

theorem Registries.KnowsModules.identity {r : Registries} (knows : r.KnowsModules w)
    (sound : Declarations.IsSound ⟨r.classes, r.functions, r.constants⟩ w) :
    (Pairing.identity w).Relates r r where
  classes := .identity fun key k found => (sound.classes key k found).1
  functions := .identity fun key f found => (sound.functions key f found).1
  constants := ⟨.identity fun key k found => (sound.exact key k found).1,
    .identity fun key k found => (sound.folded key k found).1⟩
  modules := .identity knows.modules
  moduleIndex := .identity knows.moduleIndex

theorem World.Preserves.resembles (kept : w.Preserves v c) (sound : w.Sound)
    (there : w.contexts.has c) (own : (w.context c).registries.KnowsModules w)
    (shared : (w.scopeOf c).registries.KnowsModules w) :
    w.Resembles (.identity w) v c (w.context c).scope := by
  -- what existed before the failure is paired with itself, and what came after it with nothing
  have known (x : Item) (known : x.isKnown w) : x.isKnown v := by
    cases x with
    | entity e => exact (kept.entities e known).1
    | module m => exact (kept.modules m known).1
  have grounded (m : ModuleId) := (Module.isGrounded_iff _ w).1 (sound.modules m)
  refine World.Resembles.kept ?_ (.refl w c) kept
  exact {
    known := by
      rintro x _ ⟨rfl, there⟩
      exact ⟨there, there⟩
    entities := by
      rintro e _ ⟨⟨⟩, _⟩
      rfl
    modules := by
      rintro m _ ⟨⟨⟩, _⟩
      exact ⟨rfl, rfl, List.forall₂_same.2 fun k member => ⟨rfl, (grounded m).1 k member⟩,
        List.forall₂_same.2 fun f member => ⟨rfl, (grounded m).2.1 f member⟩,
        List.forall₂_same.2 fun k member => ⟨rfl, (grounded m).2.2 k member⟩, rfl⟩
    there := ⟨there, there⟩
    housed := ⟨sound.housed c there, sound.housed c there⟩
    home := rfl
    conduct := rfl
    own := own.identity (sound.contexts c).declarations
    stem := rfl
    shared := shared.identity (sound.scopes _)
    stores := rfl
    databases := rfl
    overwritten := fun _ => rfl
    minted := rfl }

namespace Modules

/-- A failed import, and an include that fails for one or for its file, changes nothing that a
context and its scope have or keep, nor what is kept of modules, and runs no module. A source that
is imported later gives the module that it would have given without it. -/
theorem failures_leave_no_trace (discreet : h.IsDiscreet c)
    (repeats : h.Repeats c (w.context c).scope) (sound : w.Sound) (there : w.contexts.has c)
    (own : (w.context c).registries.KnowsModules w)
    (shared : (w.scopeOf c).registries.KnowsModules w) :
    (∀ source e v, importSource h c source w = (.ok (.error e), v) → w.Preserves v c ∧
      ∀ runModule dump saveCached,
        importSource { h with runModule, dump, saveCached } c source w = (.ok (.error e), v)) ∧
    (∀ path, Include.Fails h c path w → ∀ kind table trace,
      Lapses c h (fun h => Include.run h c kind path table trace) (.bool false) w) ∧
    ∀ v, w.Preserves v c → ∀ source, ∃ P, (Pairing.identity w).Within P ∧
      (importSource h c source w).2.Resembles P (importSource h c source v).2 c
        (w.context c).scope ∧
      Ends P.Loads (importSource h c source w).1 (importSource h c source v).1 := by
  have housed := sound.housed c there
  refine ⟨fun source e v failed => importSource_fails discreet housed failed,
    fun path fails kind table trace => Include.run_lapses discreet housed fails kind table trace,
    fun v kept source => ?_⟩
  have like := kept.resembles sound there own shared
  exact importSource_parallels repeats discreet (.identity w) source _ (.refl _) w v like

end Modules

def Host.exacting : Host (Ledger Unit) :=
  { Host.idle with
    compile := fun _ _ source => do
      let k ← Run.newConstant
        { name := source.code, value := .null, isCaseSensitive := true, trace := {} }
      if source.code.isEmpty then return .error .fault
      return .ok (← Run.newModule { (default : Module) with constants := [k] }) }

theorem Host.exacting_discreet (c : ContextId) : Host.exacting.IsDiscreet c where
  compile _ source := by
    have closed := Run.isClosed_preserves (τ := Ledger Unit) c
    refine closed.bind (newConstant_preserves c _) fun k => ?_
    dsimp only
    split
    next => exact closed.pure _
    next => exact closed.bind (newModule_preserves c _) fun m => closed.pure _
  undump _ _ _ w := .refl w c
  fetchCached _ _ _ w := .refl w c
  handleError _ _ w := .refl w c
  reportError _ _ w := .refl w c
  filterOutput _ _ _ w := .refl w c

theorem Host.exacting_repeats (c : ContextId) (s : ScopeId) : Host.exacting.Repeats c s where
  compile P _ source := by
    refine .bind (newConstant_parallels P _) fun Q _ k k' pair => ?_
    dsimp only
    split
    next => exact .value fun _ _ => .error _
    next =>
      refine .bind (newModule_parallels ⟨rfl, rfl, .nil, .nil, .cons pair .nil, rfl⟩)
        fun O _ m m' pair => ?_
      exact .value fun _ wide => .ok (wide _ _ pair)
  undump _ _ _ _ := .value fun _ _ => .error _
  dump _ _ _ _ _ := .value fun _ _ => rfl
  fetchCached _ _ _ _ := .value fun _ _ => rfl
  saveCached _ _ _ _ _ := .value fun _ _ => rfl
  enterClass _ _ := .value fun _ _ => rfl
  handleError _ _ _ := .value fun _ _ => rfl
  reportError _ _ _ := .value fun _ _ => rfl
  filterOutput _ _ _ _ := ⟨_, _, rfl⟩

def refused : Except Signal (Except ImportError ModuleId) × Recorded Unit :=
  Modules.importSource Host.exacting ⟨0⟩ ⟨"/a.php", "/a.php", []⟩ unincluded

theorem failures_leave_no_trace_exacting :
    (∃ e P, refused.1 = .ok (.error e) ∧ unincluded.Preserves refused.2 ⟨0⟩ ∧
      refused.2.constants.next ≠ unincluded.constants.next ∧
      (Modules.importSource Host.exacting ⟨0⟩ ⟨"/a.php", "/a.php", "A"⟩ unincluded).2.Resembles P
        (Modules.importSource Host.exacting ⟨0⟩ ⟨"/a.php", "/a.php", "A"⟩ refused.2).2 ⟨0⟩
        (unincluded.context ⟨0⟩).scope ∧
      P.Loads (.ok ⟨0⟩ : Except ImportError ModuleId) (.ok ⟨0⟩)) ∧
    Lapses ⟨0⟩ Host.exacting (fun h => Include.run h ⟨0⟩ .include "a.php" none {}) (.bool false)
      unincluded := by
  obtain ⟨there, own, ownIndex, shared, sharedIndex, unknown⟩ : unincluded.contexts.has ⟨0⟩ ∧
      (unincluded.context ⟨0⟩).registries.modules.entries = [] ∧
      (unincluded.context ⟨0⟩).registries.moduleIndex.entries = [] ∧
      (unincluded.scopeOf ⟨0⟩).registries.modules.entries = [] ∧
      (unincluded.scopeOf ⟨0⟩).registries.moduleIndex.entries = [] ∧
      ¬ unincluded.HasImported ⟨0⟩ "/a.php" := by
    decide +kernel
  obtain ⟨returned, another, found, read, imported, imported'⟩ :
      refused.1.toOption.map Except.toOption = some none ∧
      refused.2.constants.next ≠ unincluded.constants.next ∧
      Include.findFile unincluded.files (unincluded.context ⟨0⟩).searchPath.directories "a.php" =
        some "/a.php" ∧
      (unincluded.files.read "/a.php").toOption = some [] ∧
      (Modules.importSource Host.exacting ⟨0⟩ ⟨"/a.php", "/a.php", "A"⟩
        unincluded).1.toOption.bind Except.toOption = some ⟨0⟩ ∧
      (Modules.importSource Host.exacting ⟨0⟩ ⟨"/a.php", "/a.php", "A"⟩
        refused.2).1.toOption.bind Except.toOption = some ⟨0⟩ := by
    decide +kernel
  have sound : unincluded.Sound := ((naming []).course 2 _ _ ()).sound (World.start_sound _ ())
  have bare (r : Registries) (modules : r.modules.entries = [])
      (moduleIndex : r.moduleIndex.entries = []) : r.KnowsModules unincluded := by
    constructor <;> intro name m found
    · rw [Table.get?, modules] at found
      cases found
    · rw [Table.get?, moduleIndex] at found
      cases found
  obtain ⟨fails, lapses, later⟩ := Modules.failures_leave_no_trace (Host.exacting_discreet ⟨0⟩)
    (Host.exacting_repeats ⟨0⟩ (unincluded.context ⟨0⟩).scope) sound there (bare _ own ownIndex)
    (bare _ shared sharedIndex)
  obtain ⟨result, ended, broken⟩ := Option.map_eq_some_iff.1 returned
  obtain ⟨e, rfl⟩ : ∃ e, result = .error e := by
    cases result with
    | error e => exact ⟨e, rfl⟩
    | ok m => cases broken
  have failed : Modules.importSource Host.exacting ⟨0⟩ ⟨"/a.php", "/a.php", []⟩ unincluded =
      (.ok (.error e), refused.2) := eq_ok_pair_of_toOption ended
  obtain ⟨kept, -⟩ := fails _ e _ failed
  obtain ⟨P, -, like, ends⟩ := later _ kept ⟨"/a.php", "/a.php", "A"⟩
  obtain ⟨result, first, loaded⟩ := Option.bind_eq_some_iff.1 imported
  obtain ⟨result', second, loaded'⟩ := Option.bind_eq_some_iff.1 imported'
  obtain rfl := eq_ok_of_toOption loaded
  obtain rfl := eq_ok_of_toOption loaded'
  rw [eq_ok_of_toOption first, eq_ok_of_toOption second] at ends
  cases ends with
  | ok loads =>
    exact ⟨⟨e, P, eq_ok_of_toOption ended, kept, another, like, loads⟩,
      lapses _ (.refused found unknown (eq_ok_of_toOption read) failed) .include none {}⟩

end ScriptHost
