import ScriptHost.Modules.Include
import ScriptHost.Proofs.Embedder.Registries

set_option autoImplicit false

namespace ScriptHost

open Run

variable {σ : Type} {making : List ContextId} {home : Option ContextId}

namespace Modules

inductive Loads (making : List ContextId) (c : ContextId) (source : Source) (w : Recorded σ) :
    Except Signal (Except ImportError ModuleId) → Recorded σ → Prop
  | nothing {outcome : Except Signal (Except ImportError ModuleId)} {v : Recorded σ}
      (course : Course making w v) (fruitless : ∀ m, outcome ≠ .ok (.ok m)) :
      Loads making c source w outcome v
  | kept {u v : Recorded σ} (before : Course making w u) (event : Event) (m : ModuleId)
      (loaded : event.loaded = some (c, source, m)) (after : Course making (u.note event) v) :
      Loads making c source w (.ok (.ok m)) v
  | lost {u v : Recorded σ} (before : Course making w u) (event : Event) (m : ModuleId)
      (loaded : event.loaded = some (c, source, m)) (after : Course making (u.note event) v)
      (signal : Signal) (broken : ∃ e ∈ v.embedder.journal, e.event.isBreak) :
      Loads making c source w (.error signal) v

section Cache

variable {h : Host (Ledger σ)} (follows : h.Follows)
include follows

theorem fetchCached_follows (cache : ModuleCache) (source : Source) :
    (fetchCached h cache source).Follows home := by
  unfold fetchCached
  dsimp only
  split
  next s =>
    refine .bind (Connection.reading_follows s _ _) fun result => ?_
    split <;> exact .pure _
  next k =>
    refine .bind (follows.answer (.fetchCached k source.name _) rfl) fun result => ?_
    split <;> exact .pure _

theorem saveCached_follows (cache : ModuleCache) (source : Source) (payload : Bytes) :
    (saveCached h cache source payload).Follows home := by
  unfold saveCached
  dsimp only
  split
  next s => exact .bind (Connection.changing_follows s _ _) fun _ => .pure _
  next k => exact .bind (follows.answer (.saveCached k source.name _ payload) rfl) fun _ => .pure _

theorem saveCached_returns {w : Recorded σ} (ready : w.Ready making home) (cache : ModuleCache)
    (source : Source) (payload : Bytes) : (saveCached h cache source payload w).1 = .ok () ∨
      ∃ e ∈ (saveCached h cache source payload w).2.embedder.journal, e.event.isBreak := by
  cases cache with
  | store s =>
    obtain ⟨result, saved⟩ := Connection.changing_returns s .save
      (fun store d => do
        return ((), ← d.save store.now source.name (Sha256.digest source.code) payload)) w
    rw [saveCached, Connection.save, bind_ok (Prod.ext saved rfl)]
    exact .inl rfl
  | external k =>
    obtain ⟨outcome, v, answered, -⟩ :=
      follows.answered (.saveCached k source.name (Sha256.digest source.code) payload) rfl
        (.of_unwanted rfl) ready
    rw [saveCached, bind_apply, show h.saveCached k source.name _ payload w = _ from answered]
    cases outcome with
    | ok result => exact .inl rfl
    | error signal => exact .inr ⟨_, List.mem_append_right _ List.mem_cons_self, rfl⟩

theorem storePrecompiled_follows (s : Scope) (source : Source) (m : ModuleId) :
    (storePrecompiled h s source m).Follows home := by
  unfold storePrecompiled
  split
  next compiler cache _ =>
    refine .bind (follows.answer (.dump compiler.callback m) rfl) fun result => ?_
    split
    next payload => exact saveCached_follows follows cache source payload
    next => exact .pure _
  next => exact .pure _

theorem storePrecompiled_returns {w : Recorded σ} (ready : w.Ready making home) (s : Scope)
    (source : Source) (m : ModuleId) : (storePrecompiled h s source m w).1 = .ok () ∨
      ∃ e ∈ (storePrecompiled h s source m w).2.embedder.journal, e.event.isBreak := by
  unfold storePrecompiled
  cases keeping? s source with
  | none => exact .inl rfl
  | some kept =>
    obtain ⟨compiler, cache⟩ := kept
    obtain ⟨outcome, v, answered, course⟩ :=
      follows.answered (.dump compiler.callback m) rfl (.of_unwanted rfl) ready
    dsimp only
    rw [bind_apply, show h.dump compiler.callback m w = _ from answered]
    have dumped := (course.ready ready).note (.answered (.dump compiler.callback m) outcome)
    rcases outcome with signal | f | payload
    · exact .inr ⟨_, List.mem_append_right _ List.mem_cons_self, rfl⟩
    · exact .inl rfl
    · exact saveCached_returns follows dumped cache source payload

theorem loadPrecompiled_cases {w : Recorded σ} (ready : w.Ready making home) (s : Scope)
    (c : ContextId) (source : Source) :
    ∃ u, Course making w u ∧
      ((∃ outcome, loadPrecompiled h s c source w = (outcome, u) ∧ ∀ m, outcome ≠ .ok (.ok (some m))) ∨
        ∃ event m, event.loaded = some (c, source, m) ∧
          loadPrecompiled h s c source w = (.ok (.ok (some m)), u.note event)) := by
  unfold loadPrecompiled
  cases keeping? s source with
  | none => exact ⟨w, .still w, .inl ⟨_, rfl, nofun⟩⟩
  | some kept =>
    obtain ⟨compiler, cache⟩ := kept
    have fetched := fetchCached_follows follows cache source making w ready
    dsimp only
    rw [bind_apply]
    rcases result : fetchCached h cache source w with ⟨signal | payload, v⟩ <;>
      rw [result] at fetched
    · exact ⟨v, fetched, .inl ⟨_, rfl, nofun⟩⟩
    cases payload with
    | none => exact ⟨v, fetched, .inl ⟨_, rfl, nofun⟩⟩
    -- only a payload that is undumped yields a module; whatever else happens, the source is still
    -- to be compiled
    | some payload =>
      obtain ⟨outcome, u, answered, course⟩ :=
        follows.answered (.undump compiler.callback c source payload) rfl (.of_unwanted rfl)
          (fetched.ready ready)
      dsimp only
      rw [bind_apply, show h.undump compiler.callback c source payload v = _ from answered]
      rcases outcome with signal | f | m
      · exact ⟨_, (fetched.trans course).trans (.note _ rfl rfl), .inl ⟨_, rfl, nofun⟩⟩
      · exact ⟨_, (fetched.trans course).trans (.note _ rfl rfl), .inl ⟨_, rfl, nofun⟩⟩
      · exact ⟨u, fetched.trans course, .inr ⟨_, m, rfl, rfl⟩⟩

theorem loadOrCompile_loads {w : Recorded σ} (ready : w.Ready making home) (s : Scope)
    (c : ContextId) (source : Source) :
    Loads making c source w (loadOrCompile h s c source w).1 (loadOrCompile h s c source w).2 := by
  obtain ⟨u, course, ⟨outcome, read, fruitless⟩ | ⟨event, m, loaded, read⟩⟩ :=
    loadPrecompiled_cases follows ready s c source
  all_goals rw [loadOrCompile, bind_apply, read]
  -- nothing has come out of the cache: the compiler is asked, and what it gives is stored
  · rcases outcome with signal | f | _ | m
    · exact .nothing course nofun
    · exact .nothing course nofun
    · dsimp only
      cases s.compiler with
      | none => exact .nothing course nofun
      | some compiler =>
        have later := course.ready ready
        obtain ⟨outcome, v, answered, compiled⟩ :=
          follows.answered (.compile compiler.callback c source) rfl (.of_unwanted rfl) later
        dsimp only
        rw [bind_apply, show h.compile compiler.callback c source u = _ from answered]
        rcases outcome with signal | f | m
        · exact .nothing ((course.trans compiled).trans (.note _ rfl rfl)) nofun
        · exact .nothing ((course.trans compiled).trans (.note _ rfl rfl)) nofun
        · have noted := (compiled.ready later).note
            (.answered (.compile compiler.callback c source) (.ok (.ok m)))
          have stored := storePrecompiled_follows follows s source m making _ noted
          have returns := storePrecompiled_returns follows noted s source m
          dsimp only
          rw [bind_apply]
          rcases result : storePrecompiled h s source m (v.note
            (.answered (.compile compiler.callback c source) (.ok (.ok m)))) with ⟨signal | _, t⟩ <;>
            rw [result] at stored returns
          · exact .lost (course.trans compiled) _ m rfl stored signal (returns.resolve_left nofun)
          · exact .kept (course.trans compiled) _ m rfl stored
    · exact absurd rfl (fruitless m)
  · exact .kept course event m loaded (.still _)

end Cache

theorem awaitScope_apply {τ : Type} (w : World τ) (s : ScopeId) :
    awaitScope s w = if (w.scopes.get s).isImporting then (.error .exhausted, w)
      else (.ok (w.scopes.get s), w) := by
  rw [awaitScope, bind_ok (scope_apply w s)]
  split <;> rfl

theorem findModule_apply {τ : Type} (w : World τ) (s : ScopeId) (name : Bytes) :
    findModule s name w = if (w.scopes.get s).isImporting then (.error .exhausted, w)
      else (.ok ((w.scopes.get s).modules.get? name), w) := by
  rw [findModule, bind_apply, awaitScope_apply]
  cases (w.scopes.get s).isImporting <;> rfl

theorem importInScope_waits {τ : Type} (h : Host τ) {w : World τ} {s : ScopeId} (c : ContextId)
    (source : Source) (busy : (w.scopes.get s).isImporting) :
    importInScope h s c source w = (.error .exhausted, w) := by
  rw [importInScope, bind_apply, awaitScope_apply, if_pos busy]

theorem importInScope_known {τ : Type} (h : Host τ) {w : World τ} {s : ScopeId} (c : ContextId)
    {source : Source} {m : ModuleId} (free : (w.scopes.get s).isImporting = false)
    (named : source.name ≠ []) (there : (w.scopes.get s).modules.get? source.name = some m) :
    importInScope h s c source w = (.ok (.ok m), w) := by
  rw [importInScope, bind_ok ((awaitScope_apply w s).trans (if_neg (by simp [free])))]
  simp only [List.isEmpty_iff, named, if_false, there]
  rfl

def concludeLoad {τ : Type} (s : ScopeId) (source : Source) :
    Except Signal (Except ImportError ModuleId) × World τ →
      Except Signal (Except ImportError ModuleId) × World τ
  | (.ok (.ok m), v) => (.ok (.ok m), (v.conclude s source m).setImporting s false)
  | (outcome, v) => (outcome, v.setImporting s false)

theorem importInScope_missing {τ : Type} (h : Host τ) {w : World τ} {s : ScopeId} (c : ContextId)
    {source : Source} (free : (w.scopes.get s).isImporting = false)
    (missing : source.name ≠ [] → (w.scopes.get s).modules.get? source.name = none) :
    importInScope h s c source w = concludeLoad s source
      (loadOrCompile h (w.scopes.get s) c source (w.setImporting s true)) := by
  have absent : (if source.name.isEmpty then none else (w.scopes.get s).modules.get? source.name) =
      none := by
    split
    next => rfl
    next named => exact missing (by simpa using named)
  rw [importInScope, bind_ok ((awaitScope_apply w s).trans (if_neg (by simp [free])))]
  simp only [absent]
  rw [bind_ok (show setImporting s true w = (.ok (), w.setImporting s true) from rfl), ensuring,
    loadInScope, bind_apply]
  rcases loadOrCompile h (w.scopes.get s) c source (w.setImporting s true) with
    ⟨signal | f | m, v⟩
  · rfl
  · rfl
  · dsimp only
    rw [bind_ok (v.conclude_apply s source m)]
    rfl

theorem importSource_unregistered {τ : Type} (h : Host τ) {w : World τ} {c : ContextId}
    {source : Source}
    (missing : source.name ≠ [] → (w.context c).modules.get? source.name = none) :
    importSource h c source w = (do
      match ← importInScope h (w.context c).scope c source with
      | .error e => return .error e
      | .ok m =>
        register h c m
        return .ok m : Run τ (Except ImportError ModuleId)) w := by
  rw [importSource, bind_ok (context_apply w c)]
  cases known : if source.name.isEmpty then none else (w.context c).modules.get? source.name with
  | none => rfl
  | some m =>
    split at known
    next => cases known
    next named => cases (missing (by simpa using named)).symm.trans known

theorem importInScope_cases {τ : Type} (h : Host τ) (w : World τ) (s : ScopeId) (c : ContextId)
    (source : Source) :
    ((w.scopes.get s).isImporting = true ∧
      importInScope h s c source w = (.error .exhausted, w)) ∨
    ((w.scopes.get s).isImporting = false ∧ source.name ≠ [] ∧
      ∃ m, (w.scopes.get s).modules.get? source.name = some m ∧
        importInScope h s c source w = (.ok (.ok m), w)) ∨
    ((w.scopes.get s).isImporting = false ∧
      (source.name ≠ [] → (w.scopes.get s).modules.get? source.name = none) ∧
      importInScope h s c source w = concludeLoad s source
        (loadOrCompile h (w.scopes.get s) c source (w.setImporting s true))) := by
  cases free : (w.scopes.get s).isImporting with
  | true => exact .inl ⟨rfl, importInScope_waits h c source free⟩
  | false =>
    by_cases known : source.name ≠ [] ∧ ((w.scopes.get s).modules.get? source.name).isSome
    · obtain ⟨named, m, found⟩ := known.imp_right Option.isSome_iff_exists.1
      exact .inr (.inl ⟨rfl, named, m, found, importInScope_known h c free named found⟩)
    · have missing : source.name ≠ [] → (w.scopes.get s).modules.get? source.name = none :=
        fun named => by simpa [named] using known
      exact .inr (.inr ⟨rfl, missing, importInScope_missing h c free missing⟩)

theorem importInScope_course {h : Host (Ledger σ)} (follows : h.Follows) {w : Recorded σ}
    (c : ContextId) (ready : w.Ready making (some c)) (source : Source) :
    Course making w (importInScope h (w.context c).scope c source w).2 ∧
      ∀ m, (importInScope h (w.context c).scope c source w).1 = .ok (.ok m) →
        (importInScope h (w.context c).scope c source w).2.MayRecord c m ∧
        (source.name ≠ [] → (w.scopeOf c).modules.get? source.name = some m ∨
          ∃ e ∈ (importInScope h (w.context c).scope c source w).2.embedder.journal,
            e.event.loaded = some (c, source, m) ∧
              (e.world.context c).scope = (w.context c).scope) := by
  have there := ready.present c rfl
  unfold World.scopeOf
  obtain ⟨-, waits⟩ | ⟨-, -, m, found, known⟩ | ⟨free, missing, loading⟩ :=
    importInScope_cases h w (w.context c).scope c source
  · rw [waits]
    exact ⟨.still w, nofun⟩
  · rw [known]
    refine ⟨.still w, fun d same => ?_⟩
    cases same
    exact ⟨.inr (.inr ⟨_, found⟩), fun _ => .inl found⟩
  · -- the scope is locked while the module is loaded, and each way of loading says what the lock
    -- comes to
    have locked : (w.setImporting (w.context c).scope true).Ready making (some c) :=
      ready.later (ready.sound.setImporting _ true) (w.extends_setImporting _ true) rfl
    have loads := loadOrCompile_loads follows locked (w.scopes.get (w.context c).scope) c source
    rw [loading]
    generalize loadOrCompile h (w.scopes.get (w.context c).scope) c source
      (w.setImporting (w.context c).scope true) = ended at loads
    obtain ⟨outcome, v⟩ := ended
    dsimp only at loads
    cases loads with
    | nothing course fruitless =>
      have released := Course.attempt c there free course
      rcases outcome with signal | f | m
      · exact ⟨released, nofun⟩
      · exact ⟨released, nofun⟩
      · exact absurd rfl (fruitless m)
    | @kept u v before event m loaded after =>
      have released := Course.loading c source there free missing before event m loaded after
        (.inl rfl)
      have last := after.journal.subset (List.mem_append_right _ List.mem_cons_self)
      have kept : (⟨event, u.embedder.running, u.unrecorded⟩ : Moment σ) ∈
          (v.conclude (w.context c).scope source m).embedder.journal := by
        rwa [v.conclude_embedder]
      have scope := (before.extends.contexts c there).2.1
      refine ⟨released, fun d same => ?_⟩
      cases same
      refine ⟨.inr (.inl ⟨_, kept, c, source, loaded, ?_⟩), fun _ => .inr ⟨_, kept, loaded, scope⟩⟩
      exact scope.trans (released.extends.contexts c there).2.1.symm
    | lost before event m loaded after signal broken =>
      exact ⟨.loading c source there free missing before event m loaded after
        (.inr ⟨rfl, broken⟩), nofun⟩

section Registration

variable {h : Host (Ledger σ)} (follows : h.Follows)
include follows

theorem warning_course {w : Recorded σ} {c : ContextId} (ready : w.Ready making (some c))
    (trace : Trace) (text : Bytes) {rest : Run (Ledger σ) Unit}
    (next : ∀ v, Course making w v → Course making v (rest v).2) :
    Course making w ((do
      Diagnostics.warning h c trace text
      rest : Run (Ledger σ) Unit) w).2 := by
  have warned := Diagnostics.raiseText_follows follows c .warning trace text making w ready
  refine .bind ready warned fun _ v raised _ => next v ?_
  rwa [show Diagnostics.raiseText h c _ _ _ w = _ from raised] at warned

theorem declareClasses_course {w : Recorded σ} {c : ContextId} (ready : w.Ready making (some c))
    {classes : List ClassId} (known : ∀ k ∈ classes, w.classes.has k) :
    Course making w (declareClasses h c classes w).2 := by
  induction classes generalizing w with
  | nil => exact .still w
  | cons k rest ih =>
    rw [declareClasses, bind_ok (classOf_apply w k)]
    -- the rest is declared in a later world, where the classes are still known
    have next {v : Recorded σ} (course : Course making w v) :
        Course making v (declareClasses h c rest v).2 :=
      ih (course.ready ready) fun k' member =>
        (course.extends.classes k' (known k' (List.mem_cons_of_mem _ member))).1
    dsimp only
    split
    next =>
      have declared := ClassRegistry.declare_course follows ready (known k List.mem_cons_self)
      refine .bind ready declared fun isDeclared v result ready' => ?_
      rw [result] at declared
      split
      next =>
        refine .bind ready' (.still v) fun e _ read _ => ?_
        cases read
        exact warning_course follows ready' _ _ fun _ warned => next (declared.trans warned)
      next => exact next declared
    next => exact next (.still w)

theorem declareFunctions_course {w : Recorded σ} {c : ContextId} (ready : w.Ready making (some c))
    {functions : List FunctionId} (known : ∀ f ∈ functions, w.functions.has f) :
    Course making w (declareFunctions h c functions w).2 := by
  induction functions generalizing w with
  | nil => exact .still w
  | cons f rest ih =>
    rw [declareFunctions, bind_ok (functionOf_apply w f)]
    have next {v : Recorded σ} (course : Course making w v) :
        Course making v (declareFunctions h c rest v).2 :=
      ih (course.ready ready) fun f' member =>
        (course.extends.functions f' (known f' (List.mem_cons_of_mem _ member))).1
    dsimp only
    split
    next =>
      have declared := FunctionRegistry.declare_course ready (known f List.mem_cons_self)
      refine .bind ready declared fun isDeclared v result ready' => ?_
      rw [result] at declared
      split
      next =>
        exact warning_course follows ready' _ _ fun _ warned => next (declared.trans warned)
      next => exact next declared
    next => exact next (.still w)

theorem declareConstants_course {w : Recorded σ} {c : ContextId} (ready : w.Ready making (some c))
    {constants : List ConstantId} (known : ∀ k ∈ constants, w.constants.has k) :
    Course making w (declareConstants h c constants w).2 := by
  induction constants generalizing w with
  | nil => exact .still w
  | cons k rest ih =>
    have next {v : Recorded σ} (course : Course making w v) :
        Course making v (declareConstants h c rest v).2 :=
      ih (course.ready ready) fun k' member =>
        (course.extends.constants k' (known k' (List.mem_cons_of_mem _ member))).1
    have declared := ConstantRegistry.declare_course ready (known k List.mem_cons_self)
    refine .bind ready declared fun isDeclared v result ready' => ?_
    rw [result] at declared
    split
    next =>
      refine .bind ready' (.still v) fun e _ read _ => ?_
      cases read
      exact warning_course follows ready' _ _ fun _ warned => next (declared.trans warned)
    next => exact next declared

theorem declareAll_course {w : Recorded σ} {c : ContextId} (ready : w.Ready making (some c))
    (m : ModuleId) : Course making w (declareAll h c m w).2 := by
  rw [declareAll, bind_ok (moduleOf_apply w m)]
  obtain ⟨classes, functions, constants⟩ := (Module.isGrounded_iff _ w).1 (ready.sound.modules m)
  have first := declareClasses_course follows ready classes
  refine .bind ready first fun _ v result later => ?_
  rw [result] at first
  have second := declareFunctions_course follows later fun f member =>
    (first.extends.functions f (functions f member)).1
  refine .bind later second fun _ u result later => ?_
  rw [result] at second
  exact declareConstants_course follows later fun k member =>
    ((first.trans second).extends.constants k (constants k member)).1

theorem register_course {w : Recorded σ} {c : ContextId} (ready : w.Ready making (some c))
    {m : ModuleId} (may : w.MayRecord c m) : Course making w (register h c m w).2 := by
  have declared := declareAll_course follows ready m
  rw [register, bind_apply]
  rcases result : declareAll h c m w with ⟨signal | _, v⟩ <;> rw [result] at declared
  · exact declared
  · exact .registration c m (ready.present c rfl) may declared (ready.acts c rfl)

theorem importSource_course {w : Recorded σ} {c : ContextId} (ready : w.Ready making (some c))
    (source : Source) : Course making w (importSource h c source w).2 ∧
      Operation.Delivers w (.act c (.importSource source)) (importSource h c source w).1
        (importSource h c source w).2 := by
  rw [importSource, bind_ok (context_apply w c)]
  cases known : if source.name.isEmpty then none else (w.context c).modules.get? source.name with
  | some m =>
    refine ⟨.still w, fun d same => ⟨ready.present c rfl, fun named => ?_⟩⟩
    cases same
    rw [if_neg (by simpa using named)] at known
    exact .inl known
  | none =>
    obtain ⟨course, comes⟩ := importInScope_course follows c ready source
    dsimp only
    rw [bind_apply]
    generalize importInScope h (w.context c).scope c source w = imported at course comes
    obtain ⟨signal | f | m, v⟩ := imported
    · exact ⟨course, nofun⟩
    · exact ⟨course, nofun⟩
    · obtain ⟨may, named⟩ := comes m rfl
      have later := course.ready ready
      have registered := register_course follows later may
      dsimp only
      refine ⟨course.trans (.bind later registered fun _ u _ _ => .still u),
        fun d same => ⟨ready.present c rfl, fun own => ?_⟩⟩
      obtain ⟨_, u, result, last⟩ := of_bind_ok (Prod.ext same rfl)
      cases last
      rw [result] at registered
      refine .inr ((named own).imp_right fun ⟨e, member, loads⟩ => ?_)
      exact ⟨e, registered.journal.subset member, loads⟩

omit follows in
theorem awaitScope_follows (s : ScopeId) : (awaitScope s : Run (Ledger σ) Scope).Follows home :=
  .of_read fun w => by rw [awaitScope_apply]; split <;> rfl

omit follows in
theorem byIndex_follows (c : ContextId) (internalName : Bytes) :
    (byIndex c internalName : Run (Ledger σ) (Option ModuleId)).Follows (some c) := by
  refine .bind (context_follows c) fun x => ?_
  split
  next => exact .pure _
  next => exact .bind (awaitScope_follows x.scope) fun _ => .pure _

theorem defineFunction_follows (c : ContextId) (trace : Trace) (index : Bytes) (number : Int) :
    (defineFunction h c trace index number).Follows (some c) := by
  refine .bind (byIndex_follows c index) fun found => ?_
  split
  next m =>
    intro making w ready
    rw [bind_ok (moduleOf_apply w m)]
    have known := ((Module.isGrounded_iff _ w).1 (ready.sound.modules m)).2.1
    cases chosen : if number < 0 then none else (w.modules.get m).functions[number.toNat]? with
    | none => exact .still w
    | some f =>
      have member : f ∈ (w.modules.get m).functions := by
        split at chosen
        next => cases chosen
        next => exact List.mem_of_getElem? chosen
      refine .bind ready (FunctionRegistry.declare_course ready (known f member))
        fun isDeclared v _ ready => ?_
      split
      next =>
        refine Follows.bind (functionOf_follows f) (fun e => ?_) making v ready
        exact .bind (Diagnostics.raiseText_follows follows c .error trace _) fun _ => .pure _
      next => exact .still v
  next => exact .pure _

theorem run_follows (c : ContextId) (m : ModuleId) (table : Option TableId) :
    (run h c m table).Follows (some c) := by
  refine .bind (moduleOf_follows m) fun e => ?_
  split
  next body _ =>
    refine .bind (follows.answer (.runModule body c table) rfl) fun v => ?_
    split <;> exact .pure _
  next => exact .pure _

end Registration

end Modules

namespace Include

theorem find_follows (c : ContextId) (path : Bytes) :
    (find c path : Run (Ledger σ) (Option Bytes)).Follows (some c) :=
  .of_read fun _ => rfl

variable {h : Host (Ledger σ)} (follows : h.Follows)
include follows

theorem failed_follows (c : ContextId) (kind : IncludeKind) (path : Bytes) (trace : Trace) :
    (failed h c kind path trace).Follows (some c) := by
  refine .bind (context_follows c) fun x => ?_
  dsimp only
  split
  next =>
    exact .bind (Diagnostics.raiseText_follows follows c .error trace _) fun _ => .pure _
  next =>
    exact .bind (Diagnostics.raiseText_follows follows c .warning trace _) fun _ => .pure _

theorem moduleOfFile_follows (c : ContextId) (kind : IncludeKind) (file : Bytes) (trace : Trace) :
    (moduleOfFile h c kind file trace).Follows (some c) := by
  intro making w ready
  rw [moduleOfFile, bind_ok (context_apply w c)]
  cases (w.context c).modules.get? file with
  | some m => exact .still w
  | none =>
    dsimp only
    by_cases imported : (w.scopes.get (w.context c).scope).isImporting
    · rw [bind_apply, Modules.findModule_apply, if_pos imported]
      exact .still w
    rw [bind_ok ((Modules.findModule_apply w _ file).trans (if_neg imported))]
    cases found : (w.scopes.get (w.context c).scope).modules.get? file with
    | none =>
      dsimp only
      rw [bind_ok (get_apply w)]
      cases w.files.read file with
      | error => exact .still w
      | ok code =>
        -- a file that can be read is imported under its own name
        have imported := (Modules.importSource_course follows ready ⟨file, file, code⟩).1
        refine .bind ready imported fun result u _ later => ?_
        cases result with
        | ok m => exact .still u
        | error e =>
          have raised (severity : Severity) : (Diagnostics.raiseText h c severity trace
              (kind.name ++ "(): " ++ e.message)).Follows (some c) :=
            Diagnostics.raiseText_follows follows c severity trace _
          exact Follows.bind (raised _) (fun _ => .pure none) making u later
    | some m =>
      have registered := Modules.register_course follows ready (.inr (.inr ⟨_, found⟩))
      exact .bind ready registered fun _ u _ _ => .still u

theorem run_follows (c : ContextId) (kind : IncludeKind) (path : Bytes) (table : Option TableId)
    (trace : Trace) : (run h c kind path table trace).Follows (some c) := by
  refine .bind (find_follows c path) fun found => ?_
  split
  next file =>
    refine .bind (context_follows c) fun x => ?_
    split
    next => exact .pure _
    refine .bind (moduleOfFile_follows follows c kind file trace) fun loaded => ?_
    split
    next m =>
      refine .bind (context_follows c) fun x => ?_
      exact Calls.during_follows c rfl (Modules.run_follows follows c m _)
    next => exact failed_follows follows c kind path trace
  next => exact failed_follows follows c kind path trace

end Include

end ScriptHost
