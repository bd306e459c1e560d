import ScriptHost.Proofs.Modules.Publication
import ScriptHost.Proofs.Modules.Likeness

set_option autoImplicit false

namespace ScriptHost

variable {σ τ : Type} {making : List ContextId} {m : ModuleId} {r r' : Registries}

def Table.IsKnown (t : Table ModuleId) (w : World τ) : Prop :=
  ∀ name m, t.get? name = some m → w.modules.has m

theorem Table.IsKnown.insert {t : Table ModuleId} {w : World τ} (known : t.IsKnown w)
    (there : w.modules.has m) (name : Bytes) : (t.insert name m).IsKnown w := by
  intro key d found
  rw [Table.get?_insert] at found
  split at found
  next => cases found; exact there
  next => exact known key d found

theorem Table.IsKnown.overlay {t t' : Table ModuleId} {w : World τ} (below : t.IsKnown w)
    (above : t'.IsKnown w) : (t.overlay t').IsKnown w := by
  intro name m found
  rw [Table.get?_overlay, Option.or_eq_some_iff] at found
  rcases found with own | ⟨-, own⟩
  · exact above name m own
  · exact below name m own

structure Registries.KnowsModules (r : Registries) (w : World τ) : Prop where
  modules : ∀ name m, r.modules.get? name = some m → w.modules.has m
  moduleIndex : ∀ name m, r.moduleIndex.get? name = some m → w.modules.has m

def Registries.imported (r : Registries) : Table ModuleId × Table ModuleId :=
  (r.modules, r.moduleIndex)

namespace Registries.KnowsModules

variable {w w' : World τ}

theorem later (knows : r.KnowsModules w) (onward : ∀ m, w.modules.has m → w'.modules.has m)
    (same : r'.imported = r.imported) : r'.KnowsModules w' where
  modules name m found := by
    rw [show r'.modules = r.modules from congrArg Prod.fst same] at found
    exact onward m (knows.modules name m found)
  moduleIndex name m found := by
    rw [show r'.moduleIndex = r.moduleIndex from congrArg Prod.snd same] at found
    exact onward m (knows.moduleIndex name m found)

theorem empty (modules : r.modules = .empty) (moduleIndex : r.moduleIndex = .empty) :
    r.KnowsModules w where
  modules _ _ found := by rw [modules] at found; cases found
  moduleIndex _ _ found := by rw [moduleIndex] at found; cases found

theorem overlay (above : r.KnowsModules w) (below : r'.KnowsModules w) {d : Registries}
    (modules : d.modules = r'.modules.overlay r.modules)
    (moduleIndex : d.moduleIndex = r'.moduleIndex.overlay r.moduleIndex) : d.KnowsModules w where
  modules := modules ▸ Table.IsKnown.overlay below.modules above.modules
  moduleIndex := moduleIndex ▸ Table.IsKnown.overlay below.moduleIndex above.moduleIndex

theorem record (knows : r.KnowsModules w) (there : w.modules.has m) {name internalName : Bytes}
    (modules : r'.modules = if name.isEmpty then r.modules else r.modules.insert name m)
    (moduleIndex : r'.moduleIndex = r.moduleIndex.insert internalName m) : r'.KnowsModules w where
  modules := by
    rw [modules]
    split
    next => exact knows.modules
    next => exact Table.IsKnown.insert knows.modules there name
  moduleIndex := moduleIndex ▸ Table.IsKnown.insert knows.moduleIndex there internalName

end Registries.KnowsModules

structure World.KnowsModules (w : Recorded σ) : Prop where
  loaded : ∀ e ∈ w.embedder.journal, ∀ c source m, e.event.loaded = some (c, source, m) →
    w.modules.has m
  scopes : ∀ s, (w.scopes.get s).registries.KnowsModules w
  contexts : ∀ c, (w.context c).registries.KnowsModules w

namespace World.KnowsModules

variable {w w' : Recorded σ}

theorem later (knows : w.KnowsModules) (onward : ∀ m, w.modules.has m → w'.modules.has m)
    (journal : ∀ e ∈ w'.embedder.journal, e ∈ w.embedder.journal ∨ e.event.loaded = none)
    (scopes : ∀ s, (w'.scopes.get s).registries.imported = (w.scopes.get s).registries.imported)
    (contexts : ∀ c, (w'.context c).registries.imported = (w.context c).registries.imported) :
    w'.KnowsModules where
  loaded e member c source m loaded := by
    rcases journal e member with before | silent
    · exact onward m (knows.loaded e before c source m loaded)
    · cases silent.symm.trans loaded
  scopes s := (knows.scopes s).later onward (scopes s)
  contexts c := (knows.contexts c).later onward (contexts c)

theorem adjust (knows : w.KnowsModules) (c : ContextId) (f : Context → Context)
    (keeps : (f (w.context c)).registries.imported = (w.context c).registries.imported) :
    World.KnowsModules (w.updateContext c f) :=
  knows.later (fun _ => id) (fun _ => .inl) (fun _ => rfl) fun d => by
    rw [World.context_updateContext]
    split
    next here => exact here.1 ▸ keeps
    next => rfl

theorem popFrame (knows : w.KnowsModules) (c : ContextId) : (w.popFrame c).KnowsModules := by
  unfold World.popFrame
  split
  next => exact knows
  next => exact knows.adjust c _ rfl

theorem setImporting (knows : w.KnowsModules) (s : ScopeId) (isImporting : Bool) :
    World.KnowsModules (w.setImporting s isImporting) :=
  knows.later (fun _ => id) (fun _ => .inl)
    (fun t => w.scopes.modify_keeps s t _ (fun x : Scope => x.registries.imported) fun _ => rfl)
    fun _ => rfl

theorem note (knows : w.KnowsModules) (event : Event)
    (loaded : ∀ c source m, event.loaded = some (c, source, m) → w.modules.has m) :
    (w.note event).KnowsModules where
  loaded e member c source m known := by
    rcases List.mem_append.1 member with before | last
    · exact knows.loaded e before c source m known
    · cases List.mem_singleton.1 last
      exact loaded c source m known
  scopes s := (knows.scopes s).later (fun _ => id) rfl
  contexts c := (knows.contexts c).later (fun _ => id) rfl

theorem noteUnloaded (knows : w.KnowsModules) (event : Event) (silent : event.loaded = none) :
    (w.note event).KnowsModules :=
  knows.note event fun _ _ _ loaded => nomatch silent.symm.trans loaded

theorem start (files : FileTree) (own : σ) : (World.start files own).KnowsModules where
  loaded _ member := nomatch member
  scopes _ := ⟨fun _ _ => nofun, fun _ _ => nofun⟩
  contexts _ := ⟨fun _ _ => nofun, fun _ _ => nofun⟩

theorem finish (knows : w.KnowsModules) (running : List Operation) (o : Operation)
    (outcome : Except Signal o.Result) : (w.finish running o outcome).KnowsModules :=
  knows.later (fun _ => id) (fun e member => (List.mem_append.1 member).imp_right fun last => by
    rw [List.mem_singleton.1 last]
    rfl) (fun _ => rfl) fun _ => rfl

theorem leaveHook (knows : w.KnowsModules) (c : ContextId) (lower : Bytes) (hook : Callback)
    (outcome : Except Signal (Option Failure)) :
    (w.leaveHook c lower hook outcome).KnowsModules := by
  have noted := knows.noteUnloaded (.answered (.enterClass hook c) outcome) rfl
  unfold World.leaveHook
  split
  next => exact noted.adjust c _ rfl
  next => exact noted

theorem enlist (knows : w.KnowsModules) (s : ScopeId) (sink : SinkId) :
    World.KnowsModules (w.enlist s sink) where
  loaded := knows.loaded
  scopes t := (knows.scopes t).later (fun _ => id) rfl
  contexts c := by
    change ((w.contexts.add (w.newcomer s sink)).get c).registries.KnowsModules _
    rw [Pool.get_add]
    split
    next => exact .empty rfl rfl
    next => exact (knows.contexts c).later (fun _ => id) rfl

theorem conclude (knows : w.KnowsModules) (s : ScopeId) (source : Source) {m : ModuleId}
    (there : w.modules.has m) : World.KnowsModules (w.conclude s source m) := by
  obtain ⟨internalName, minted, same⟩ := w.conclude_eq s source m
  have onward (d : ModuleId) (known : w.modules.has d) :
      (w.nameModule m source.name internalName minted).modules.has d :=
    (w.modules.has_modify m d _).trans known
  rw [same]
  refine ⟨fun e member c source d loaded => onward d (knows.loaded e member c source d loaded),
    fun t => ?_, fun c => (knows.contexts c).later onward rfl⟩
  have kept : (w.scopes.get t).registries.KnowsModules
      (w.nameModule m source.name internalName minted) := (knows.scopes t).later onward rfl
  change Registries.KnowsModules (Scope.registries ((w.scopes.modify s _).get t)) _
  rw [Pool.get_modify]
  split
  next => exact (kept.record (onward m there) rfl rfl).later (fun _ => id) rfl
  next => exact kept.later (fun _ => id) rfl

theorem recordModule (knows : w.KnowsModules) (c : ContextId) {m : ModuleId}
    (there : w.modules.has m) : World.KnowsModules (w.recordModule c m) where
  loaded := knows.loaded
  scopes s := (knows.scopes s).later (fun _ => id) rfl
  contexts d := by
    rw [World.recordModule, World.context_updateContext]
    split
    next => exact ((knows.contexts d).record there rfl rfl).later (fun _ => id) rfl
    next => exact (knows.contexts d).later (fun _ => id) rfl

end World.KnowsModules

theorem Change.imported {w w' : Recorded σ} (step : Change making w w') (s : ScopeId) :
    (w'.scopes.get s).registries.imported = (w.scopes.get s).registries.imported := by
  cases step with
  | addScope t =>
    show ((w.scopes.add t.bare).get s).registries.imported = _
    rw [Pool.get_add]
    split
    next fresh =>
      subst fresh
      rw [Pool.get_of_not_has _ fun known => Pool.ne_next_of_has _ known rfl]
      rfl
    next => rfl
  | setDefaults t | declareClass t | declareFunction t | declareConstant t =>
    exact Pool.modify_keeps w.scopes t s _ (fun x : Scope => x.registries.imported) fun _ => rfl
  | popCall c => rw [World.popFrame_scopes]
  | _ => rfl

theorem Change.knowsModules {w w' : Recorded σ} (step : Change making w w')
    (knows : w.KnowsModules) : w'.KnowsModules := by
  have onward (m : ModuleId) (known : w.modules.has m) := (step.extends.modules m known).1
  have scopes := step.imported
  cases step with
  | note event isPlain => exact knows.noteUnloaded event (Event.loaded_of_isPlain isPlain)
  | surroundings | addClass | addMethod | shareClass | addFunction | shareFunction | addConstant
  | addModule | addObject | markFinalized | addScope | setDefaults | declareClass | declareFunction
  | declareConstant | setOwn =>
    exact knows.later onward (fun _ => .inl) scopes fun _ => rfl
  | adjust c f adjusts =>
    have same := (adjusts (w.context c)).holdings
    exact knows.adjust c f (congrArg₂ Prod.mk (congrArg Context.Holdings.modules same)
      (congrArg Context.Holdings.moduleIndex same))
  | close c =>
    exact (knows.adjust c (fun x => { x with isClosed := true }) rfl).later (fun _ => id)
      (fun _ => .inl) (fun _ => rfl) fun _ => rfl
  | popCall c => exact knows.popFrame c
  | inherit c p =>
    refine ⟨knows.loaded, fun s => (knows.scopes s).later (fun _ => id) rfl, fun d => ?_⟩
    rw [World.context_updateContext]
    split
    next =>
      exact ((knows.contexts p).overlay (knows.contexts d) rfl rfl).later (fun _ => id) rfl
    next => exact (knows.contexts d).later (fun _ => id) rfl
  | _ => exact knows.adjust _ _ rfl

theorem Course.knowsModules {w w' : Recorded σ} (course : Course making w w')
    (answers : w.Adds (fun e => ∀ c source m, e.event.loaded = some (c, source, m) →
      e.world.modules.has m) w')
    (asked : ∀ c m, w.embedder.running.head? = some (.act c (.registerModule m)) →
      w.modules.has m)
    (knows : w.KnowsModules) : w'.KnowsModules := by
  induction course with
  | still => exact knows
  | change step => exact step.knowsModules knows
  | trans first rest ih ih' =>
    obtain ⟨early, late⟩ := answers.split first.journal rest.journal
    refine ih' late (fun c m head => ?_) (ih early asked knows)
    exact (first.extends.modules m (asked c m (first.running ▸ head))).1
  | @operation _ w w' o outcome inner _ performs ih =>
    obtain ⟨within, -⟩ := answers.of_finish inner.journal
    obtain ⟨h, -, request⟩ := performs.request
    have begun : (w.begin o).KnowsModules :=
      knows.later (fun _ => id) (fun _ => .inl) (fun _ => rfl) fun _ => rfl
    refine World.KnowsModules.finish ?_ _ o outcome
    -- an operation that names a module that does not exist has no effect
    by_cases grounded : o.isGrounded (w.begin o)
    · refine ih within ?_ begun
      rintro c m ⟨⟩
      simpa [Operation.isGrounded, Action.isGrounded] using (Bool.and_eq_true_iff.1 grounded).2
    · rw [Operation.request, if_neg grounded] at request
      cases request
      exact begun
  | @frame _ w w' c f inner _ ih =>
    exact (ih (answers.split inner.journal (w'.journal_popFrame c)).1 asked
      (knows.adjust c _ rfl)).popFrame c
  | autoload c key _ _ _ _ ih => exact (ih answers asked (knows.adjust c _ rfl)).adjust c _ rfl
  | @destructor _ w v w' c o k f _ known _ retires inner calls ih =>
    obtain ⟨-, -, inside⟩ := answers.split_event (v := v.pushFrame c f)
      (retires.journal ▸ List.prefix_rfl) inner.journal (w'.journal_popFrame c)
    have marked : (w.markFinalized o).KnowsModules :=
      knows.later (fun _ => id) (fun _ => .inl) (fun _ => rfl) fun _ => rfl
    have given : v.KnowsModules := retires.elim known calls.acts marked (·.knowsModules marked)
    have pushed : (v.pushFrame c f).KnowsModules := given.adjust c _ rfl
    refine (ih inside (fun d m head => ?_) (pushed.noteUnloaded _ rfl)).popFrame c
    exact retires.modules ▸ asked d m (retires.running ▸ head)
  | @hook _ w w' c k k' _ _ _ _ outcome inner _ _ ih =>
    obtain ⟨-, -, inside⟩ := answers.split_event (v := w.insertClass c k) List.prefix_rfl
      inner.journal (w'.prefix_leaveHook c (w.classes.get k).lowerName k' outcome)
    have inserted : World.KnowsModules (w.insertClass c k) := knows.adjust c _ rfl
    exact (ih inside asked (inserted.noteUnloaded _ rfl)).leaveHook c _ k' outcome
  | @registration _ w w' c m _ may inner _ ih =>
    refine (ih answers asked knows).recordModule c (inner.extends.modules m ?_).1
    rcases may with head | ⟨e, member, d, source, loaded, -⟩ | ⟨name, found⟩
    · exact asked c m head
    · exact knows.loaded e member d source m loaded
    · exact (knows.scopes _).modules name m found
  | @attempt _ w w' c _ _ _ ih =>
    exact (ih answers asked (knows.setImporting _ true)).setImporting _ false
  | @loading _ w u v w' c source _ _ _ before event m loaded after ended ih ih' =>
    obtain ⟨early, answered, late⟩ := answers.split_event before.journal after.journal
      ended.journal
    have there : u.modules.has m := answered c source m loaded
    have noted : (u.note event).KnowsModules :=
      (ih early asked (knows.setImporting _ true)).note event fun _ _ _ same => by
        cases loaded.symm.trans same
        exact there
    have running : u.embedder.running = w.embedder.running := before.running
    have kept : v.KnowsModules := ih' late (fun d m head =>
      (before.extends.modules m (asked d m (running ▸ head))).1) noted
    refine World.KnowsModules.setImporting ?_ _ false
    rcases ended with rfl | ⟨rfl, -⟩
    · exact kept.conclude _ source (after.extends.modules m there).1
    · exact kept
  | creation s sink _ _ _ ih => exact ih answers asked (knows.enlist s sink)

/-- Where compilers and caches only give modules that exist, a run only registers such modules. -/
theorem Script.knowsModules {ρ : Type} (s : Script σ) (depth : Nat) (code : Code σ ρ)
    (files : FileTree) (own : σ)
    (answers : ∀ e ∈ (code.run (s.host depth) (.start files own)).2.embedder.journal,
      ∀ c source m, e.event.loaded = some (c, source, m) → e.world.modules.has m) :
    (code.run (s.host depth) (.start files own)).2.KnowsModules := by
  have course := s.course depth code files own
  generalize (code.run (s.host depth) (.start files own)).2 = z at answers course ⊢
  exact course.knowsModules ⟨z.embedder.journal, rfl, answers⟩ nofun (.start files own)

end ScriptHost
