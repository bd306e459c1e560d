import ScriptHost.Proofs.Modules.Offers

set_option autoImplicit false

namespace ScriptHost

variable {σ τ : Type} {making : List ContextId} {t : ScopeId}

namespace Moment

variable {e : Moment σ} {name : Bytes} {m : ModuleId}

def Loads (e : Moment σ) (t : ScopeId) (name : Bytes) (m : ModuleId) : Prop :=
  ∃ c source, e.event.loaded = some (c, source, m) ∧ (e.world.context c).scope = t ∧
    source.name = name

def load? (t : ScopeId) (e : Moment σ) : Option (Bytes × ModuleId) :=
  match e.event.loaded with
  | some (c, source, m) =>
    if (e.world.context c).scope = t ∧ source.name ≠ [] then some (source.name, m) else none
  | none => none

theorem load?_eq_some : e.load? t = some (name, m) ↔ e.Loads t name m ∧ name ≠ [] := by
  unfold load? Loads
  rcases e.event.loaded with _ | ⟨c, source, d⟩
  · simp
  · constructor
    · intro loaded
      obtain ⟨⟨scope, named⟩, ⟨⟩⟩ := Option.ite_none_right_eq_some.1 loaded
      exact ⟨⟨c, source, rfl, scope, rfl⟩, named⟩
    · rintro ⟨⟨_, _, ⟨⟩, scope, rfl⟩, named⟩
      exact if_pos ⟨scope, named⟩

theorem Loads.load?_eq (loads : e.Loads t name m) :
    e.load? t = if name = [] then none else some (name, m) := by
  obtain ⟨c, source, loaded, scope, rfl⟩ := loads
  by_cases named : source.name = [] <;> simp [load?, loaded, scope, named]

theorem load?_eq_none (silent : ∀ name m, ¬ e.Loads t name m) : e.load? t = none :=
  Option.eq_none_iff_forall_ne_some.2 fun _ loads => silent _ _ (load?_eq_some.1 loads).1

end Moment

def World.loads (w : Recorded σ) (t : ScopeId) : List (Bytes × ModuleId) :=
  w.embedder.journal.filterMap (Moment.load? t)

theorem World.mem_loads {w : Recorded σ} {name : Bytes} {m : ModuleId} :
    (name, m) ∈ w.loads t ↔ (∃ e ∈ w.embedder.journal, e.Loads t name m) ∧ name ≠ [] := by
  unfold loads
  simp only [List.mem_filterMap, Moment.load?_eq_some]
  exact ⟨fun ⟨e, member, loads, named⟩ => ⟨⟨e, member, loads⟩, named⟩,
    fun ⟨⟨e, member, loads⟩, named⟩ => ⟨e, member, loads, named⟩⟩

theorem World.loads_note (w : Recorded σ) (event : Event) :
    (w.note event).loads t =
      w.loads t ++ (Moment.load? t ⟨event, w.embedder.running, w.unrecorded⟩).toList := by
  show (w.embedder.journal ++ [_]).filterMap _ = _
  rw [List.filterMap_append, List.filterMap_cons]
  rw [loads]
  cases Moment.load? t ⟨event, w.embedder.running, w.unrecorded⟩ <;> rfl

theorem World.Adds.loads {w w' : Recorded σ}
    (silent : w.Adds (fun e => ∀ name m, ¬ e.Loads t name m) w') : w'.loads t = w.loads t := by
  obtain ⟨new, journal, each⟩ := silent
  have none : new.filterMap (Moment.load? t) = [] :=
    List.filterMap_eq_nil_iff.2 fun e member => Moment.load?_eq_none (each e member)
  rw [World.loads, journal, List.filterMap_append, none, List.append_nil, World.loads]

theorem Moment.silent {event : Event} (nothing : event.loaded = none) (running : List Operation)
    (w : World σ) (name : Bytes) (m : ModuleId) : ¬ Moment.Loads ⟨event, running, w⟩ t name m := by
  rintro ⟨c, source, loaded, -⟩
  exact nomatch nothing.symm.trans loaded

theorem Event.loaded_of_isPlain {event : Event} (isPlain : event.isPlain) :
    event.loaded = none := by
  unfold Event.isPlain at isPlain
  split at isPlain <;> simp_all

section Scopes

def Scope.imports (s : Scope) : Table ModuleId × Bool := (s.modules, s.isImporting)

theorem Change.imports {w w' : Recorded σ} (step : Change making w w') (s : ScopeId) :
    (w'.scopes.get s).imports = (w.scopes.get s).imports := by
  cases step with
  | addScope t =>
    show ((w.scopes.add t.bare).get s).imports = _
    rw [Pool.get_add]
    split
    next fresh =>
      subst fresh
      rw [Pool.get_of_not_has _ fun known => Pool.ne_next_of_has _ known rfl]
      rfl
    next => rfl
  | setDefaults t | declareClass t | declareFunction t | declareConstant t =>
    exact Pool.modify_keeps w.scopes t s _ Scope.imports fun _ => rfl
  | popCall c => rw [World.popFrame_scopes]
  | _ => rfl

theorem Change.keeps_modules {w w' : Recorded σ} (step : Change making w w') {m : ModuleId}
    (known : w.modules.has m) :
    w'.modules.has m ∧ (w'.modules.get m).name = (w.modules.get m).name := by
  refine ⟨(step.extends.modules m known).1, ?_⟩
  cases step with
  | addModule e => exact congrArg Module.name (Pool.get_add_of_has w.modules e known)
  | popCall c => rw [World.popFrame_modules]
  | _ => rfl

theorem World.setImporting_apart (w : World τ) {s : ScopeId} (isImporting : Bool) (apart : s ≠ t) :
    (w.setImporting s isImporting).scopes.get t = w.scopes.get t :=
  Pool.get_modify_of_ne _ _ apart

theorem World.setImporting_own (w : World τ) (isImporting : Bool) (known : w.scopes.has t) :
    ((w.setImporting t isImporting).scopes.get t).imports =
      ((w.scopes.get t).modules, isImporting) :=
  congrArg Scope.imports (Pool.get_modify_self _ _ _ known)

theorem World.conclude_apart (w : World τ) {s : ScopeId} (source : Source) (m : ModuleId)
    (apart : s ≠ t) : (w.conclude s source m).scopes.get t = w.scopes.get t := by
  obtain ⟨internalName, minted, same⟩ := w.conclude_eq s source m
  rw [same]
  exact Pool.get_modify_of_ne _ _ apart

theorem World.conclude_own (w : World τ) (source : Source) (m : ModuleId)
    (known : w.scopes.has t) : ((w.conclude t source m).scopes.get t).imports =
      (if ((w.conclude t source m).modules.get m).name.isEmpty then (w.scopes.get t).modules
        else (w.scopes.get t).modules.insert ((w.conclude t source m).modules.get m).name m,
      (w.scopes.get t).isImporting) := by
  obtain ⟨internalName, minted, same⟩ := w.conclude_eq t source m
  rw [same]
  exact congrArg Scope.imports (Pool.get_modify_self (w.scopes) t _ known)

end Scopes

theorem Course.keeps_name {w w' : Recorded σ} (course : Course making w w') {m : ModuleId}
    (known : w.modules.has m) (silent : w.Adds (fun e => ∀ s name, ¬ e.Loads s name m) w') :
    (w'.modules.get m).name = (w.modules.get m).name := by
  induction course with
  | still => rfl
  | change step => exact (step.keeps_modules known).2
  | trans first rest ih ih' =>
    obtain ⟨early, late⟩ := silent.split first.journal rest.journal
    exact (ih' (first.extends.modules m known).1 late).trans (ih known early)
  | operation o outcome inner _ _ ih =>
    exact ih known (silent.of_finish inner.journal).1
  | @frame _ w w' c f inner _ ih =>
    rw [World.popFrame_modules]
    exact ih known (silent.split inner.journal (w'.journal_popFrame c)).1
  | autoload _ _ _ _ _ _ ih => exact ih known silent
  | @destructor _ w v w' c o k f _ _ _ retires inner _ ih =>
    obtain ⟨-, -, inside⟩ := silent.split_event (v := v.pushFrame c f)
      (retires.journal ▸ List.prefix_rfl) inner.journal (w'.journal_popFrame c)
    rw [World.popFrame_modules, ← retires.modules]
    exact ih (retires.modules ▸ known) inside
  | @hook _ w w' c k k' _ _ _ _ outcome inner _ _ ih =>
    obtain ⟨-, -, inside⟩ := silent.split_event (v := w.insertClass c k) List.prefix_rfl inner.journal
      (w'.prefix_leaveHook c (w.classes.get k).lowerName k' outcome)
    rw [World.leaveHook_modules]
    exact ih known inside
  | registration _ _ _ _ _ _ ih => exact ih known silent
  | attempt _ _ _ _ ih => exact ih known silent
  | @loading _ w u v w' c source _ _ _ before event d loaded after ended ih ih' =>
    obtain ⟨early, loads, late⟩ := silent.split_event before.journal after.journal ended.journal
    -- only a module that has just been loaded is named
    have other : d ≠ m := by
      rintro rfl
      exact loads _ _ ⟨c, source, loaded, rfl, rfl⟩
    have named : (v.modules.get m).name = (w.modules.get m).name :=
      (ih' (before.extends.modules m known).1 late).trans (ih known early)
    rcases ended with rfl | ⟨rfl, -⟩
    · show ((v.conclude _ source d).modules.get m).name = _
      rw [v.name_conclude, if_neg fun both => other both.1, named]
    · exact named
  | creation _ _ _ _ _ ih => exact ih known silent

theorem Course.locked {w w' : Recorded σ} (course : Course making w w')
    (locked : (w.scopes.get t).isImporting) :
    (w'.scopes.get t).imports = (w.scopes.get t).imports ∧
      w.Adds (fun e => ∀ name m, ¬ e.Loads t name m) w' := by
  induction course with
  | still => exact ⟨rfl, .of_same rfl⟩
  | change step => exact ⟨step.imports t, step.adds fun _ isPlain _ =>
    Moment.silent (Event.loaded_of_isPlain isPlain) _ _⟩
  | trans _ _ ih ih' =>
    obtain ⟨same, early⟩ := ih locked
    obtain ⟨same', late⟩ := ih' ((congrArg Prod.snd same).trans locked)
    exact ⟨same'.trans same, early.trans late⟩
  | @operation _ w w' o outcome _ _ _ ih =>
    obtain ⟨same, within⟩ := ih locked
    exact ⟨same, World.Adds.finish within (Moment.silent rfl _ _)⟩
  | @frame _ w w' c f _ _ ih =>
    obtain ⟨same, within⟩ := ih locked
    rw [World.popFrame_scopes]
    exact ⟨same, World.Adds.popFrame within c⟩
  | autoload _ _ _ _ _ _ ih => exact ih locked
  | @destructor _ w v w' c o k f _ _ _ retires _ _ ih =>
    obtain ⟨same, within⟩ := ih (retires.scopes ▸ locked)
    rw [World.popFrame_scopes, ← retires.scopes]
    exact ⟨same, (World.Adds.of_event (v := v.pushFrame c f) retires.embedder
      (Moment.silent rfl _ _) within).popFrame c⟩
  | @hook _ w w' c k k' _ _ _ _ outcome _ _ _ ih =>
    obtain ⟨same, within⟩ := ih locked
    rw [World.leaveHook_scopes]
    exact ⟨same, (World.Adds.of_event rfl (Moment.silent rfl _ _) within).leaveHook
      (Moment.silent rfl _ _)⟩
  | registration _ _ _ _ _ _ ih => exact ih locked
  | @attempt _ w w' c _ free _ ih =>
    -- the scope is taken, so this import is one to another scope
    have apart : (w.context c).scope ≠ t := by
      rintro rfl
      exact nomatch free.symm.trans locked
    rw [World.setImporting_apart _ _ apart]
    rw [World.setImporting_apart _ _ apart] at ih
    exact ih locked
  | @loading _ w u v w' c source there free _ before event d loaded after ended ih ih' =>
    have apart : (w.context c).scope ≠ t := by
      rintro rfl
      exact nomatch free.symm.trans locked
    rw [World.setImporting_apart _ _ apart] at ih
    obtain ⟨same, early⟩ := ih locked
    obtain ⟨same', late⟩ := ih' ((congrArg Prod.snd same).trans locked)
    have begun : w.Adds (fun e => ∀ name m, ¬ e.Loads t name m) u := early
    have rest : u.Adds (fun e => ∀ name m, ¬ e.Loads t name m) v := by
      refine .of_event rfl ?_ late
      rintro name m ⟨c', source', loaded', scope, -⟩
      cases loaded.symm.trans loaded'
      exact apart ((before.extends.contexts c there).2.1.symm.trans scope)
    refine ⟨?_, begun.trans (rest.trans (.of_same (congrArg Ledger.journal ended.embedder)))⟩
    rw [World.setImporting_apart _ _ apart]
    refine Eq.trans ?_ (same'.trans same)
    rcases ended with rfl | ⟨rfl, -⟩
    · rw [World.conclude_apart _ _ _ apart]
    · rfl
  | creation _ _ _ _ _ ih => exact ih locked

structure LoadsWell (journal : List (Moment σ)) (t : ScopeId) : Prop where
  named : ∀ e ∈ journal, ∀ name m, e.Loads t name m → e.world.modules.has m ∧
    ((e.world.modules.get m).name = [] ∨ (e.world.modules.get m).name = name)
  apart : ∀ e ∈ journal, ∀ e' ∈ journal, ∀ name m, e.Loads t name m →
    ∀ s name', e'.Loads s name' m → s = t
  kept : ∀ e ∈ journal, e.event.isBreak = false

theorem LoadsWell.before {early late : List (Moment σ)} (first : early <+: late)
    (well : LoadsWell late t) : LoadsWell early t where
  named e member := well.named e (first.subset member)
  apart e member e' member' := well.apart e (first.subset member) e' (first.subset member')
  kept e member := well.kept e (first.subset member)

structure LoadsSoundly (journal : List (Moment σ)) (t : ScopeId) : Prop
    extends LoadsWell journal t where
  sound : ∀ e ∈ journal, e.world.Sound

theorem LoadsSoundly.before {early late : List (Moment σ)} (first : early <+: late)
    (well : LoadsSoundly late t) : LoadsSoundly early t where
  toLoadsWell := well.toLoadsWell.before first
  sound e member := well.sound e (first.subset member)

/-- A scope has what has been loaded for it: the modules by name, in order, and the static
declarations of each, unless what had their name before. -/
structure World.HasPublished (w : World τ) (t : ScopeId) (journal : List (Moment σ)) : Prop where
  modules : (w.scopes.get t).modules.entries = journal.filterMap (Moment.load? t)
  statics : ∀ e ∈ journal, ∀ name m, e.Loads t name m → ∀ x ∈ e.world.declared m,
    ((w.scopes.get t).holder e.world x).isSome

namespace World.HasPublished

variable {w w' : World τ} {early late : List (Moment σ)}

theorem later (published : w.HasPublished t early) (onward : w.Extends w')
    (modules : (w'.scopes.get t).modules = (w.scopes.get t).modules) :
    w'.HasPublished t early where
  modules := modules ▸ published.modules
  statics e member name m loads x offered := by
    have taken := published.statics e member name m loads x offered
    exact Scope.isTaken_later (onward.scopes t (World.has_of_isTaken taken)).2 taken

theorem append (published : w.HasPublished t early)
    (silent : ∀ e ∈ late, ∀ name m, ¬ e.Loads t name m) : w.HasPublished t (early ++ late) where
  modules := by
    have none : late.filterMap (Moment.load? t) = [] :=
      List.filterMap_eq_nil_iff.2 fun e member => Moment.load?_eq_none (silent e member)
    rw [List.filterMap_append, none, List.append_nil, published.modules]
  statics e member name m loads := by
    rcases List.mem_append.1 member with earlier | last
    · exact published.statics e earlier name m loads
    · exact absurd loads (silent e last name m)

end World.HasPublished

structure World.Publishes (w : Recorded σ) (t : ScopeId) : Prop where
  housed : ∀ c, w.contexts.has c → w.scopes.has (w.context c).scope
  published : (w.scopes.get t).isImporting = false → w.HasPublished t w.embedder.journal
  named : ∀ e ∈ w.embedder.journal, ∀ name m, e.Loads t name m → w.modules.has m ∧
    ((w.modules.get m).name = [] ∨
      ∃ e' ∈ w.embedder.journal, e'.Loads t (w.modules.get m).name m)
  moments : ∀ before e after, w.embedder.journal = before ++ e :: after →
    (e.world.scopes.get t).isImporting = false → e.world.HasPublished t (before ++ [e])

namespace World.Publishes

variable {w w' : Recorded σ}

theorem start (files : FileTree) (own : σ) : (World.start files own).Publishes t where
  housed _ known := nomatch known
  published _ := ⟨rfl, fun _ => nofun⟩
  named _ member := nomatch member
  moments _ _ _ same := nomatch (List.append_eq_nil_iff.1 same.symm).2

theorem later (publishes : w.Publishes t) (onward : w.Extends w')
    (back : ∀ c, w'.contexts.has c → w.contexts.has c)
    (journal : w'.embedder.journal = w.embedder.journal)
    (imports : (w'.scopes.get t).imports = (w.scopes.get t).imports)
    (names : ∀ m, w.modules.has m → (w'.modules.get m).name = (w.modules.get m).name) :
    w'.Publishes t where
  housed c known := by
    obtain ⟨-, scope, -⟩ := onward.contexts c (back c known)
    exact scope ▸ (onward.scopes _ (publishes.housed c (back c known))).1
  published free := by
    rw [journal]
    exact (publishes.published ((congrArg Prod.snd imports).symm.trans free)).later onward
      (congrArg Prod.fst imports)
  named e member name m loads := by
    rw [journal] at member ⊢
    obtain ⟨known, named⟩ := publishes.named e member name m loads
    rw [names m known]
    exact ⟨(onward.modules m known).1, named⟩
  moments := by
    rw [journal]
    exact publishes.moments

theorem updateContext (publishes : w.Publishes t) (c : ContextId) (f : Context → Context)
    (onward : w.Extends (w.updateContext c f)) : (w.updateContext c f).Publishes t :=
  publishes.later onward (fun d known => (w.contexts.has_modify c d f).symm.trans known) rfl rfl
    fun _ _ => rfl

theorem popFrame (publishes : w.Publishes t) (c : ContextId) : (w.popFrame c).Publishes t := by
  have onward := w.extends_popFrame c
  unfold World.popFrame at onward ⊢
  split at onward
  next => exact publishes
  next => exact publishes.updateContext c _ onward

theorem note (publishes : w.Publishes t) (event : Event)
    (silent : (w.scopes.get t).isImporting = false → ∀ name m,
      ¬ Moment.Loads ⟨event, w.embedder.running, w.unrecorded⟩ t name m)
    (named : ∀ name m, Moment.Loads ⟨event, w.embedder.running, w.unrecorded⟩ t name m →
      w.modules.has m ∧ ((w.modules.get m).name = [] ∨ (w.modules.get m).name = name)) :
    (w.note event).Publishes t := by
  have published (free : (w.scopes.get t).isImporting = false) :
      w.HasPublished t (w.note event).embedder.journal :=
    (publishes.published free).append fun e last => by
      rw [List.mem_singleton.1 last]
      exact silent free
  refine ⟨publishes.housed, fun free => ⟨(published free).modules, (published free).statics⟩,
    fun e member name m loads => ?_,
    fun before e after same free => ?_⟩
  · rcases List.mem_append.1 member with earlier | last
    · obtain ⟨known, kept⟩ := publishes.named e earlier name m loads
      refine ⟨known, kept.imp_right fun ⟨e', member', loads'⟩ => ?_⟩
      exact ⟨e', List.mem_append_left _ member', loads'⟩
    · obtain rfl := List.mem_singleton.1 last
      obtain ⟨known, kept⟩ := named name m loads
      refine ⟨known, kept.imp_right fun own => ⟨_, List.mem_append_right _ last, ?_⟩⟩
      rw [show (w.note event).modules = w.modules from rfl, own]
      exact loads
  -- at the new moment the scope is that of now, at an older one it is what it was
  · rcases split_concat same with ⟨rfl, rfl, rfl⟩ | ⟨rest, -, older⟩
    · exact ⟨(published free).modules, (published free).statics⟩
    · exact publishes.moments before e rest older free

theorem noteUnloaded (publishes : w.Publishes t) (event : Event) (nothing : event.loaded = none) :
    (w.note event).Publishes t :=
  publishes.note event (fun _ => Moment.silent nothing _ _)
    fun name m loads => absurd loads (Moment.silent nothing _ _ name m)

theorem enlist (publishes : w.Publishes t) {s : ScopeId} (there : w.scopes.has s) (sink : SinkId) :
    (w.enlist s sink).Publishes t where
  housed c known := by
    show w.scopes.has ((w.contexts.add (w.newcomer s sink)).get c).scope
    rw [Pool.get_add]
    split
    next => exact there
    next older => exact publishes.housed c (Pool.has_of_has_add known older)
  published free := ⟨(publishes.published free).modules, (publishes.published free).statics⟩
  named := publishes.named
  moments := publishes.moments

end World.Publishes

theorem Change.publishes {w w' : Recorded σ} (step : Change making w w')
    (publishes : w.Publishes t) : w'.Publishes t := by
  have onward := step.extends
  have imports := step.imports t
  have names := fun m known => (step.keeps_modules (m := m) known).2
  cases step with
  | note event isPlain => exact publishes.noteUnloaded event (Event.loaded_of_isPlain isPlain)
  | popCall c => exact publishes.popFrame c
  | close c =>
    exact publishes.later onward (fun d known => (Pool.has_modify ..).symm.trans known) rfl imports
      names
  | surroundings | addClass | addMethod | shareClass | addFunction | shareFunction | addConstant
  | addModule | addObject | markFinalized | addScope | setDefaults | declareClass | declareFunction
  | declareConstant | setOwn => exact publishes.later onward (fun _ => id) rfl imports names
  | _ => exact publishes.updateContext _ _ onward

namespace World.Publishes

variable {w w' : Recorded σ}

theorem leaveHook (publishes : w.Publishes t) (c : ContextId) (lower : Bytes) (hook : Callback)
    (outcome : Except Signal (Option Failure)) :
    (w.leaveHook c lower hook outcome).Publishes t := by
  have noted := publishes.noteUnloaded (.answered (.enterClass hook c) outcome) rfl
  unfold World.leaveHook
  split
  next =>
    exact noted.updateContext c _
      (.updateContext _ c _ (.of_same rfl rfl rfl rfl rfl rfl))
  next => exact noted

theorem setImporting (publishes : w.Publishes t) (s : ScopeId) (isImporting : Bool)
    (published : s = t → isImporting = false → w.HasPublished t w.embedder.journal) :
    (w.setImporting s isImporting).Publishes t where
  housed c known := (w.scopes.has_modify s _ _).trans (publishes.housed c known)
  published free := by
    have modules : ((w.setImporting s isImporting).scopes.get t).modules =
        (w.scopes.get t).modules := Pool.modify_keeps w.scopes s t _ Scope.modules fun _ => rfl
    refine World.HasPublished.later ?_ (w.extends_setImporting s isImporting) modules
    by_cases own : s = t ∧ w.scopes.has t
    · obtain ⟨rfl, known⟩ := own
      exact published rfl ((congrArg Prod.snd (w.setImporting_own isImporting known)).symm.trans free)
    · have same : (w.setImporting s isImporting).scopes.get t = w.scopes.get t := by
        refine (w.scopes.get_modify s t _).trans (if_neg ?_)
        exact fun both => own ⟨both.1, both.1 ▸ both.2⟩
      rw [same] at free
      exact publishes.published free
  named := publishes.named
  moments := publishes.moments

theorem lock (publishes : w.Publishes t) (s : ScopeId) : (w.setImporting s true).Publishes t :=
  publishes.setImporting s true fun _ => nofun

theorem conclude (publishes : w.Publishes t) (well : LoadsSoundly w.embedder.journal t) {s : ScopeId}
    {source : Source} {m : ModuleId} {e : Moment σ} (member : e ∈ w.embedder.journal)
    (loads : e.Loads s source.name m)
    (published : s = t → (w.conclude s source m).HasPublished t w.embedder.journal) :
    ((w.conclude s source m).setImporting s false).Publishes t := by
  have onward := World.Extends.conclude w s source m
  have embedder := w.conclude_embedder s source m
  have contexts := w.conclude_contexts s source m
  refine World.Publishes.setImporting ⟨fun c known => ?_, fun free => ?_, ?_, ?_⟩ s false
    fun own _ => ?_
  · rw [contexts] at known
    rw [World.context, contexts]
    exact (onward.scopes _ (publishes.housed c known)).1
  · rw [embedder]
    by_cases own : s = t
    · exact published own
    · have apart := w.conclude_apart source m own
      rw [apart] at free
      exact (publishes.published free).later onward (congrArg Scope.modules apart)
  · rw [embedder]
    intro e' member' name d loads'
    obtain ⟨known, kept⟩ := publishes.named e' member' name d loads'
    refine ⟨(onward.modules d known).1, ?_⟩
    rw [w.name_conclude]
    split
    -- a module that gets its name now has been loaded for this scope alone
    next named =>
      obtain ⟨rfl, -⟩ := named
      obtain rfl := well.apart e' member' e member name m loads' s source.name loads
      exact .inr ⟨e, member, loads⟩
    next => exact kept
  · rw [embedder]
    exact publishes.moments
  · rw [embedder]
    exact published own

end World.Publishes

section Loading

variable {w u v : Recorded σ} {c : ContextId} {source : Source} {event : Event} {m : ModuleId}
  (publishes : w.Publishes t) (there : w.contexts.has c) (own : (w.context c).scope = t)
  (before : Course making (w.setImporting t true) u) (loaded : event.loaded = some (c, source, m))
  (after : Course making (u.note event) v) (well : LoadsSoundly v.embedder.journal t)
include publishes there own before loaded after well

theorem World.Publishes.loaded_modules (free : (w.scopes.get t).isImporting = false)
    (missing : source.name ≠ [] → (w.scopes.get t).modules.get? source.name = none) :
    ((v.conclude t source m).scopes.get t).modules.entries = v.loads t := by
  let e : Moment σ := ⟨event, u.embedder.running, u.unrecorded⟩
  have known : w.scopes.has t := own ▸ publishes.housed c there
  -- from here to the end the scope is taken, on both sides of the load
  have locked := w.setImporting_own true known
  obtain ⟨same, early⟩ := before.locked (congrArg Prod.snd locked)
  obtain ⟨same', late⟩ := after.locked (congrArg Prod.snd (same.trans locked))
  have modules : (v.scopes.get t).modules = (w.scopes.get t).modules :=
    congrArg Prod.fst (same'.trans (same.trans locked))
  have loads : e.Loads t source.name m :=
    ⟨c, source, loaded, (before.extends.contexts c there).2.1.trans own, rfl⟩
  have member : e ∈ v.embedder.journal :=
    after.journal.subset (List.mem_append_right _ List.mem_cons_self)
  obtain ⟨there', named⟩ := well.named e member source.name m loads
  -- after the load no other load names the module, so it is named here if at all
  have kept : (v.modules.get m).name = (u.modules.get m).name := by
    obtain ⟨new, journal, each⟩ := late
    refine after.keeps_name there' ⟨new, journal, fun e' inside s name loads' => ?_⟩
    have member' : e' ∈ v.embedder.journal := journal ▸ List.mem_append_right _ inside
    obtain rfl := well.apart e member e' member' source.name m loads s name loads'
    exact each e' inside name m loads'
  have name : ((v.conclude t source m).modules.get m).name = source.name := by
    rw [v.name_conclude]
    split
    next => rfl
    next other =>
      rw [kept] at other ⊢
      exact named.resolve_left fun none => other ⟨rfl, (after.extends.modules m there').1, none⟩
  have later : v.loads t = w.loads t ++ (if source.name = [] then [] else [(source.name, m)]) := by
    rw [late.loads, u.loads_note, early.loads, loads.load?_eq]
    split <;> rfl
  have published := congrArg Prod.fst (v.conclude_own source m
    (after.extends.scopes t (before.extends.scopes t ((w.scopes.has_modify t t _).trans known)).1).1)
  dsimp only [Scope.imports] at published
  have entries : (w.scopes.get t).modules.entries = w.loads t := (publishes.published free).modules
  rw [published, name, modules, later, ← entries]
  by_cases anonymous : source.name = []
  · simp [anonymous]
  · simp [anonymous, Table.entries_insert m (missing anonymous)]

theorem World.Publishes.loaded_statics (free : (w.scopes.get t).isImporting = false)
    {e : Moment σ} (member : e ∈ v.embedder.journal) {name : Bytes} {d : ModuleId}
    (loads : e.Loads t name d) {x : Entity} (offered : x ∈ e.world.declared d) :
    (((v.conclude t source m).scopes.get t).holder e.world x).isSome := by
  have known : w.scopes.has t := own ▸ publishes.housed c there
  have locked := w.setImporting_own true known
  obtain ⟨same, new, early, silent⟩ := before.locked (congrArg Prod.snd locked)
  obtain ⟨-, new', late, silent'⟩ := after.locked (congrArg Prod.snd (same.trans locked))
  have journal : v.embedder.journal =
      w.embedder.journal ++ new ++ [⟨event, u.embedder.running, u.unrecorded⟩] ++ new' := by
    rw [late]
    exact congrArg (· ++ [_] ++ new') early
  rw [journal, List.mem_append, List.mem_append, List.mem_append] at member
  rcases member with ((older | inside) | here) | inside
  -- what was published before the import stays
  · have taken := (publishes.published free).statics e older name d loads x offered
    have onward : w.Extends (v.conclude t source m) :=
      (w.extends_setImporting t true).trans <| before.extends.trans <|
        (u.extends_note event).trans <| after.extends.trans <| .conclude v t source m
    exact Scope.isTaken_later (onward.scopes t known).2 taken
  · exact absurd loads (silent e inside name d)
  -- the module that is loaded offers to the end of the import what it offered when it came
  · obtain rfl := List.mem_singleton.1 here
    obtain ⟨c', source', loaded', -, rfl⟩ := loads
    cases loaded.symm.trans loaded'
    have answered : (⟨event, u.embedder.running, u.unrecorded⟩ : Moment σ) ∈ v.embedder.journal :=
      after.journal.subset (List.mem_append_right _ List.mem_cons_self)
    have scope : (u.context c).scope = t := (before.extends.contexts c there).2.1.trans own
    obtain ⟨there', -⟩ := well.named _ answered source.name m ⟨c, source, loaded, scope, rfl⟩
    have provided := World.Provides.ofSound (well.sound _ answered) there' offered
    have kept := (after.throughout (World.provides_invariant m x _) provided).1.embed v.embedder
    have still := (before.extends.scopes t ((w.scopes.has_modify t t _).trans known)).1
    exact World.isTaken_conclude (after.extends.scopes t still).1 source kept rfl
  · exact absurd loads (silent' e inside name d)

end Loading

theorem Course.publishes {w w' : Recorded σ} (course : Course making w w')
    (publishes : w.Publishes t) (well : LoadsSoundly w'.embedder.journal t) : w'.Publishes t := by
  induction course with
  | still => exact publishes
  | change step => exact step.publishes publishes
  | trans first rest ih ih' => exact ih' (ih publishes (well.before rest.journal)) well
  | @operation _ w w' o outcome inner _ _ ih =>
    have begun : (w.begin o).Publishes t :=
      publishes.later (w.extends_begin o) (fun _ => id) rfl rfl fun _ _ => rfl
    have ended := ih begun (well.before (List.prefix_append _ _))
    have left : World.Publishes
        { w' with embedder := { w'.embedder with running := w.embedder.running } } t :=
      ended.later (.of_same rfl rfl rfl rfl rfl rfl rfl) (fun _ => id) rfl rfl
        fun _ _ => rfl
    exact left.noteUnloaded (.finished o outcome) rfl
  | @frame _ w w' c f _ _ ih =>
    have pushed : (w.pushFrame c f).Publishes t :=
      publishes.updateContext c _ (w.extends_pushFrame c f)
    exact (ih pushed (well.before (w'.journal_popFrame c))).popFrame c
  | @autoload _ w w' c key _ _ _ _ ih =>
    have entered : (w.updateLoaders c (·.enter key)).Publishes t :=
      publishes.updateContext c _ (w.extends_updateLoaders c (·.enter key))
    exact (ih entered well).updateContext c _ (w'.extends_updateLoaders c (·.leave key))
  | @destructor _ w v w' c o k f _ known _ retires _ calls ih =>
    have marked : (w.markFinalized o).Publishes t :=
      publishes.later (.markFinalized w o) (fun _ => id) rfl rfl fun _ _ => rfl
    have given : v.Publishes t := retires.elim known calls.acts marked (·.publishes marked)
    have pushed : (v.pushFrame c f).Publishes t :=
      given.updateContext c _ (World.extends_pushFrame v c f)
    exact (ih (pushed.noteUnloaded _ rfl) (well.before (w'.journal_popFrame c))).popFrame c
  | @hook _ w w' c k k' _ _ _ _ outcome _ _ _ ih =>
    have inserted : (w.insertClass c k).Publishes t :=
      publishes.updateContext c _ (w.extends_insertClass c k)
    have left := w'.prefix_leaveHook c (w.classes.get k).lowerName k' outcome
    exact (ih (inserted.noteUnloaded _ rfl) (well.before left)).leaveHook c _ k' outcome
  | @registration _ w w' c m _ _ _ _ ih =>
    exact (ih publishes well).updateContext c _ (w'.extends_recordModule c m)
  | @attempt _ w w' c there free inner ih =>
    refine (ih (publishes.lock _) well).setImporting _ false fun own _ => ?_
    subst own
    have locked := w.setImporting_own true (publishes.housed c there)
    obtain ⟨same, silent⟩ := inner.locked (congrArg Prod.snd locked)
    have modules : (w'.scopes.get (w.context c).scope).modules =
        (w.scopes.get (w.context c).scope).modules := congrArg Prod.fst (same.trans locked)
    obtain ⟨new, journal, each⟩ := silent
    rw [journal]
    exact ((publishes.published free).later (w.extends_setImporting _ true |>.trans inner.extends)
      modules).append each
  | @loading _ w u v w' c source there free missing before event m loaded after ended ih ih' =>
    have kept : LoadsSoundly v.embedder.journal t := well.before ended.journal
    have answered : u.embedder.journal <+: v.embedder.journal :=
      (List.prefix_append _ _).trans after.journal
    have begun := ih (publishes.lock _) (kept.before answered)
    let e : Moment σ := ⟨event, u.embedder.running, u.unrecorded⟩
    have member : e ∈ v.embedder.journal :=
      after.journal.subset (List.mem_append_right _ List.mem_cons_self)
    have loads : e.Loads (w.context c).scope source.name m :=
      ⟨c, source, loaded, (before.extends.contexts c there).2.1, rfl⟩
    have noted : (u.note event).Publishes t := by
      refine begun.note event (fun unlocked => ?_) (kept.named e member)
      -- a scope that is free is not the one for which this module is loaded
      rintro name d ⟨c', source', loaded', scope, -⟩
      cases loaded.symm.trans loaded'
      have own : (w.context c).scope = t := (before.extends.contexts c there).2.1.symm.trans scope
      subst own
      have locked := w.setImporting_own true (publishes.housed c there)
      have still := (before.locked (congrArg Prod.snd locked)).1.trans locked
      exact nomatch unlocked.symm.trans (congrArg Prod.snd still)
    have ended' := ih' noted kept
    rcases ended with rfl | ⟨rfl, e', member', broken⟩
    · refine ended'.conclude kept member loads fun own => ?_
      subst own
      exact ⟨publishes.loaded_modules there rfl before loaded after kept free missing,
        fun e' member' name d loads' x offered =>
          publishes.loaded_statics there rfl before loaded after kept free member' loads' offered⟩
    -- an import that breaks off would leave a module that is loaded and not published
    · exact nomatch (kept.kept e' member').symm.trans broken
  | creation s sink known _ _ ih => exact ih (publishes.enlist known sink) well

end ScriptHost
