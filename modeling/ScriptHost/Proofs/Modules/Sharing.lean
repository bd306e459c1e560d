import ScriptHost.Proofs.Modules.Publication

set_option autoImplicit false

namespace ScriptHost

variable {σ τ : Type} {making : List ContextId} {t : ScopeId}

structure World.Shares (w : World τ) (known : List (Bytes × ModuleId)) (t : ScopeId) : Prop where
  inScope : ∀ name m, (w.scopes.get t).modules.get? name = some m → (name, m) ∈ known
  inContext : ∀ c, (w.context c).scope = t → ∀ name m,
    (w.context c).modules.get? name = some m → (name, m) ∈ known

namespace World.Shares

variable {w w' : World τ} {known : List (Bytes × ModuleId)}

theorem later (shares : w.Shares known t)
    (imports : (w'.scopes.get t).imports = (w.scopes.get t).imports)
    (contexts : ∀ c, (w'.context c).scope = (w.context c).scope ∧
      (w'.context c).modules = (w.context c).modules) : w'.Shares known t where
  inScope name m found := by
    have modules : (w'.scopes.get t).modules = (w.scopes.get t).modules := congrArg Prod.fst imports
    exact shares.inScope name m (modules ▸ found)
  inContext c own name m found := by
    obtain ⟨scope, modules⟩ := contexts c
    exact shares.inContext c (scope ▸ own) name m (modules ▸ found)

theorem updateContext (shares : w.Shares known t) (c : ContextId) (f : Context → Context)
    (scope : (f (w.context c)).scope = (w.context c).scope)
    (each : (w.context c).scope = t → ∀ name m, (f (w.context c)).modules.get? name = some m →
      (name, m) ∈ known) : (w.updateContext c f).Shares known t where
  inScope := shares.inScope
  inContext d own name m found := by
    rw [World.context_updateContext] at own found
    split at own
    next here =>
      obtain ⟨rfl, there⟩ := here
      rw [if_pos ⟨rfl, there⟩] at found
      exact each (scope.symm.trans own) name m found
    next other =>
      rw [if_neg other] at found
      exact shares.inContext d own name m found

theorem adjust (shares : w.Shares known t) (c : ContextId) (f : Context → Context)
    (scope : (f (w.context c)).scope = (w.context c).scope)
    (modules : (f (w.context c)).modules = (w.context c).modules) :
    (w.updateContext c f).Shares known t :=
  shares.updateContext c f scope fun own name m found =>
    shares.inContext c own name m (modules ▸ found)

theorem popFrame (shares : w.Shares known t) (c : ContextId) : (w.popFrame c).Shares known t := by
  unfold World.popFrame
  split
  next => exact shares
  next => exact shares.adjust c _ rfl rfl

theorem setImporting (shares : w.Shares known t) (s : ScopeId) (isImporting : Bool) :
    (w.setImporting s isImporting).Shares known t where
  inScope := by
    rw [show ((w.setImporting s isImporting).scopes.get t).modules = (w.scopes.get t).modules from
      Pool.modify_keeps w.scopes s t _ Scope.modules fun _ => rfl]
    exact shares.inScope
  inContext := shares.inContext

theorem enlist (shares : w.Shares known t) (s : ScopeId) (sink : SinkId) :
    (w.enlist s sink).Shares known t where
  inScope := shares.inScope
  inContext c own name m found := by
    change ((w.contexts.add (w.newcomer s sink)).get c).scope = t at own
    change ((w.contexts.add (w.newcomer s sink)).get c).modules.get? name = some m at found
    rw [Pool.get_add] at own found
    split at found
    next => cases found
    next other =>
      rw [if_neg other] at own
      exact shares.inContext c own name m found

theorem leaveHook {σ : Type} {w : Recorded σ} (shares : w.Shares known t) (c : ContextId)
    (lower : Bytes) (hook : Callback) (outcome : Except Signal (Option Failure)) :
    (w.leaveHook c lower hook outcome).Shares known t := by
  have noted : (w.note (.answered (.enterClass hook c) outcome)).Shares known t :=
    ⟨shares.inScope, shares.inContext⟩
  unfold World.leaveHook
  split
  next => exact noted.adjust c _ rfl rfl
  next => exact noted

theorem conclude (shares : w.Shares known t) (s : ScopeId) (source : Source) (m : ModuleId)
    (named : s = t → ((w.conclude s source m).modules.get m).name ≠ [] →
      (((w.conclude s source m).modules.get m).name, m) ∈ known) :
    (w.conclude s source m).Shares known t where
  inScope name d found := by
    by_cases own : s = t
    · subst own
      by_cases there : w.scopes.has s
      · have published := congrArg Prod.fst (w.conclude_own source m there)
        dsimp only [Scope.imports] at published
        rw [published] at found
        split at found
        next => exact shares.inScope name d found
        next own =>
          rw [Table.get?_insert] at found
          split at found
          next same =>
            cases found
            exact same ▸ named rfl (by simpa using own)
          next => exact shares.inScope name d found
      -- there is no such scope, so nothing is published
      · obtain ⟨internalName, minted, same⟩ := w.conclude_eq s source m
        rw [same] at found
        have untouched : ((w.nameModule m source.name internalName minted).updateScope s
            (Modules.publishIn (w.nameModule m source.name internalName minted) m)).scopes.get s =
              w.scopes.get s := by
          refine (Pool.get_modify ..).trans (if_neg ?_)
          exact fun both => there both.2
        exact shares.inScope name d (untouched ▸ found)
    · rw [w.conclude_apart source m own] at found
      exact shares.inScope name d found
  inContext := by
    unfold World.context
    rw [w.conclude_contexts]
    exact shares.inContext

theorem recordModule (shares : w.Shares known t) (c : ContextId) (m : ModuleId)
    (named : (w.context c).scope = t → (w.modules.get m).name ≠ [] →
      ((w.modules.get m).name, m) ∈ known) : (w.recordModule c m).Shares known t := by
  refine shares.updateContext c _ rfl fun own name d found => ?_
  split at found
  next => exact shares.inContext c own name d found
  next other =>
    rw [Table.get?_insert] at found
    split at found
    next same =>
      cases found
      exact same ▸ named own (by simpa using other)
    next => exact shares.inContext c own name d found

end World.Shares

theorem Change.shares {w w' : Recorded σ} {known : List (Bytes × ModuleId)}
    (step : Change making w w') (shares : w.Shares known t) : w'.Shares known t := by
  have imports := step.imports t
  cases step with
  | surroundings | addClass | addMethod | shareClass | addFunction | shareFunction | addConstant
  | addModule | addObject | markFinalized | addScope | setDefaults | declareClass | declareFunction
  | declareConstant | note | setOwn => exact shares.later imports fun _ => ⟨rfl, rfl⟩
  | adjust c f adjusts =>
    exact shares.adjust c f (congrArg Context.Holdings.scope (adjusts _).holdings)
      (congrArg Context.Holdings.modules (adjusts _).holdings)
  | popCall c => exact shares.popFrame c
  | close c =>
    have shut := shares.adjust c (fun x => { x with isClosed := true }) rfl rfl
    exact ⟨shut.inScope, shut.inContext⟩
  | inherit c p _ shared =>
    refine shares.updateContext c _ rfl fun own name m found => ?_
    rw [Table.get?_overlay, Option.or_eq_some_iff] at found
    rcases found with above | ⟨-, below⟩
    · exact shares.inContext p (shared.symm.trans own) name m above
    · exact shares.inContext c own name m below
  | _ => exact shares.adjust _ _ rfl rfl

structure World.OnlyLoads (z : Recorded σ) (t : ScopeId) : Prop where
  well : LoadsWell z.embedder.journal t
  registered : ∀ e ∈ z.embedder.journal, ∀ c m outcome,
    e.event = .finished (.act c (.registerModule m)) outcome → (z.context c).scope = t →
    ∃ e' ∈ z.embedder.journal, ∃ name, e'.Loads t name m

structure Moment.Conforms (e : Moment σ) (known : List (Bytes × ModuleId)) (t : ScopeId) :
    Prop where
  shares : e.world.Shares known t
  imported : ∀ c source m, e.event = .finished (.act c (.importSource source)) (.ok (.ok m)) →
    (e.world.context c).scope = t → source.name ≠ [] → (source.name, m) ∈ known

theorem World.Shares.conforms {w : Recorded σ} {known : List (Bytes × ModuleId)}
    (shares : w.Shares known t) (event : Event) (inside : event.isEnd = false)
    (running : List Operation) : Moment.Conforms ⟨event, running, w.unrecorded⟩ known t where
  shares := ⟨shares.inScope, shares.inContext⟩
  imported c source m same := by
    rw [show event = _ from same] at inside
    cases inside

theorem World.Shares.note {w : Recorded σ} {known : List (Bytes × ModuleId)}
    (shares : w.Shares known t) (event : Event) : (w.note event).Shares known t :=
  ⟨shares.inScope, shares.inContext⟩

structure World.Precedes (w z : Recorded σ) : Prop where
  journal : w.embedder.journal <+: z.embedder.journal
  onward : w.Extends z

namespace World.Precedes

variable {w w' z : Recorded σ}

theorem back (precedes : w'.Precedes z) (journal : w.embedder.journal <+: w'.embedder.journal)
    (onward : w.Extends w') : w.Precedes z :=
  ⟨journal.trans precedes.journal, onward.trans precedes.onward⟩

theorem before (precedes : w'.Precedes z) (course : Course making w w') : w.Precedes z :=
  precedes.back course.journal course.extends

theorem named (precedes : w.Precedes z) (publishes : z.Publishes t) {m : ModuleId}
    (loaded : ∃ e ∈ z.embedder.journal, ∃ name, e.Loads t name m)
    (named : (w.modules.get m).name ≠ []) : ((w.modules.get m).name, m) ∈ z.loads t := by
  have there : w.modules.has m := Decidable.byContradiction fun unknown =>
    named (congrArg Module.name (Pool.get_of_not_has _ unknown))
  have same := (precedes.onward.modules m there).2 named
  obtain ⟨e, member, name, loads⟩ := loaded
  obtain ⟨-, kept⟩ := publishes.named e member name m loads
  rw [same] at kept
  exact World.mem_loads.2 ⟨kept.resolve_left named, named⟩

theorem loaded_of_mayRecord (precedes : w.Precedes z) (shares : w.Shares (z.loads t) t)
    {c : ContextId} {m : ModuleId} (there : w.contexts.has c) (own : (w.context c).scope = t)
    (asked : w.embedder.running.head? = some (.act c (.registerModule m)) →
      (z.context c).scope = t → ∃ e ∈ z.embedder.journal, ∃ name, e.Loads t name m)
    (may : w.MayRecord c m) : ∃ e ∈ z.embedder.journal, ∃ name, e.Loads t name m := by
  rcases may with request | ⟨e, member, c', source, loaded, scope⟩ | ⟨name, found⟩
  · exact asked request ((precedes.onward.contexts c there).2.1.trans own)
  · exact ⟨e, precedes.journal.subset member, source.name, c', source, loaded, scope.trans own, rfl⟩
  · have known := shares.inScope name m (own ▸ found)
    obtain ⟨⟨e, member, loads⟩, -⟩ := World.mem_loads.1 known
    exact ⟨e, member, name, loads⟩

theorem conforms_finish {o : Operation} {outcome : Except Signal o.Result}
    (precedes : w'.Precedes z) (shares : w.Shares (z.loads t) t) (inner : Course [] (w.begin o) w')
    (delivers : o.Delivers (w.begin o) outcome w') (ended : w'.Shares (z.loads t) t)
    (running : List Operation) :
    Moment.Conforms ⟨.finished o outcome, running, w'.unrecorded⟩ (z.loads t) t where
  shares := ⟨ended.inScope, ended.inContext⟩
  imported := by
    rintro c source m ⟨⟩ scope named
    obtain ⟨there, comes⟩ := delivers m rfl
    have own : (w.context c).scope = t := (inner.extends.contexts c there).2.1.symm.trans scope
    rcases comes named with found | found | ⟨e, member, loaded, same⟩
    · exact shares.inContext c own _ m found
    · exact shares.inScope _ m (own ▸ found)
    · have kept : e ∈ z.embedder.journal := precedes.journal.subset member
      exact World.mem_loads.2 ⟨⟨e, kept, c, source, loaded, same.trans own, rfl⟩, named⟩

end World.Precedes

theorem Course.shares {w w' z : Recorded σ} (course : Course making w w') (only : z.OnlyLoads t)
    (publishes : z.Publishes t) (precedes : w'.Precedes z)
    (asked : ∀ c m, w.embedder.running.head? = some (.act c (.registerModule m)) →
      (z.context c).scope = t → ∃ e ∈ z.embedder.journal, ∃ name, e.Loads t name m)
    (shares : w.Shares (z.loads t) t) :
    w'.Shares (z.loads t) t ∧ w.Adds (·.Conforms (z.loads t) t) w' := by
  -- `z` is the end of the run and stays; each case leads its own end back to `z` before it uses
  -- what holds of the part inside
  induction course with
  | still => exact ⟨shares, .of_same rfl⟩
  | change step =>
    exact ⟨step.shares shares, step.adds fun event isPlain _ =>
      shares.conforms event (Event.isEnd_of_isPlain isPlain) _⟩
  | trans first rest ih ih' =>
    obtain ⟨between, early⟩ := ih (precedes.before rest) asked shares
    obtain ⟨ended, late⟩ := ih' precedes (first.running ▸ asked) between
    exact ⟨ended, early.trans late⟩
  | @operation _ w w' o outcome inner delivers _ ih =>
    have within := precedes.back (List.prefix_append w'.embedder.journal _)
      (w'.extends_finish w.embedder.running o outcome)
    have registered : ∀ c m, some o = some (.act c (.registerModule m)) →
        (z.context c).scope = t → ∃ e ∈ z.embedder.journal, ∃ name, e.Loads t name m := by
      rintro c m ⟨⟩ own
      exact only.registered _ (precedes.journal.subset (List.mem_append_right _ List.mem_cons_self))
        c m outcome rfl own
    obtain ⟨ended, adds⟩ := ih within registered ⟨shares.inScope, shares.inContext⟩
    exact ⟨⟨ended.inScope, ended.inContext⟩,
      adds.finish (within.conforms_finish shares inner delivers ended _)⟩
  | @frame _ w w' c f _ _ ih =>
    have within := precedes.back (w'.journal_popFrame c) (w'.extends_popFrame c)
    obtain ⟨ended, adds⟩ := ih within asked (shares.adjust c _ rfl rfl)
    exact ⟨ended.popFrame c, World.Adds.popFrame adds c⟩
  | @autoload _ w w' c key _ _ _ _ ih =>
    have within := precedes.back (w := w') List.prefix_rfl (w'.extends_updateLoaders c _)
    obtain ⟨ended, adds⟩ := ih within asked (shares.adjust c _ rfl rfl)
    exact ⟨ended.adjust c _ rfl rfl, adds.trans (.of_same rfl)⟩
  | @destructor _ w v w' c o k f _ known _ retires _ calls ih =>
    have marked : (w.markFinalized o).Shares (z.loads t) t := ⟨shares.inScope, shares.inContext⟩
    have given : v.Shares (z.loads t) t := retires.elim known calls.acts marked (·.shares marked)
    have pushed : (v.pushFrame c f).Shares (z.loads t) t := given.adjust c _ rfl rfl
    have within := precedes.back (w'.journal_popFrame c) (w'.extends_popFrame c)
    obtain ⟨ended, adds⟩ := ih within (retires.running ▸ asked)
      (pushed.note (.called (.destroyObject k c o)))
    have called := World.Adds.of_event (v := v.pushFrame c f) retires.embedder
      (pushed.conforms (.called (.destroyObject k c o)) rfl _) adds
    exact ⟨ended.popFrame c, called.popFrame c⟩
  | @hook _ w w' c k k' _ _ _ _ outcome _ _ _ ih =>
    have inserted : (w.insertClass c k).Shares (z.loads t) t := shares.adjust c _ rfl rfl
    have within := precedes.back (w'.prefix_leaveHook c (w.classes.get k).lowerName k' outcome)
      (w'.extends_leaveHook c (w.classes.get k).lowerName k' outcome)
    obtain ⟨ended, adds⟩ := ih within asked (inserted.note (.called (.enterClass k' c)))
    have called := World.Adds.of_event rfl
      (inserted.conforms (.called (.enterClass k' c)) rfl _) adds
    exact ⟨ended.leaveHook c _ k' outcome,
      called.leaveHook (ended.conforms (.answered (.enterClass k' c) outcome) rfl _)⟩
  | @registration _ w w' c m there may inner _ ih =>
    have within := precedes.back (w := w') List.prefix_rfl (w'.extends_recordModule c m)
    obtain ⟨ended, adds⟩ := ih within asked shares
    refine ⟨ended.recordModule c m fun own => within.named publishes ?_, adds.trans (.of_same rfl)⟩
    have start : (w.context c).scope = t := (inner.extends.contexts c there).2.1.symm.trans own
    exact (within.before inner).loaded_of_mayRecord shares there start (asked c m) may
  | @attempt _ w w' c _ _ _ ih =>
    have within := precedes.back (w := w') List.prefix_rfl (w'.extends_setImporting _ false)
    obtain ⟨ended, adds⟩ := ih within asked (shares.setImporting _ true)
    exact ⟨ended.setImporting _ false, adds⟩
  | @loading _ w u v w' c source there _ _ before event m loaded after ended ih ih' =>
    have published := precedes.back (w := w') List.prefix_rfl (w'.extends_setImporting _ false)
    have within := published.back ended.journal ended.extends
    have noted := within.before after
    obtain ⟨locked, early⟩ := ih (noted.back (List.prefix_append _ _) (u.extends_note event)) asked
      (shares.setImporting _ true)
    have running : u.embedder.running = w.embedder.running := before.running
    obtain ⟨kept, late⟩ := ih' within (show ∀ c m, u.embedder.running.head? = _ → _ from
      running ▸ asked) (locked.note event)
    have begun : World.Adds (·.Conforms (z.loads t) t) w u := early
    have answered := World.Adds.of_event rfl
      (locked.conforms event (Event.isEnd_of_loaded loaded) _) late
    refine ⟨World.Shares.setImporting ?_ _ false,
      begun.trans (answered.trans (.of_same (congrArg Ledger.journal ended.embedder)))⟩
    rcases ended with rfl | ⟨rfl, -⟩
    -- the module is published under a name under which it has been loaded by the end
    · refine kept.conclude _ source m fun own => published.named publishes ?_
      have scope := (before.extends.contexts c there).2.1.trans own
      exact ⟨_, noted.journal.subset (List.mem_append_right _ List.mem_cons_self), source.name, c,
        source, loaded, scope, rfl⟩
    · exact kept
  | creation s sink _ _ _ ih => exact ih precedes asked (shares.enlist s sink)

def Moment.isProper (t : ScopeId) (e : Moment σ) : Bool :=
  !e.event.isBreak &&
  (match e.event with
  | .finished (.act _ (.registerModule _)) _ => false
  | _ => true) &&
  e.event.loaded.all fun (c, source, m) =>
    (e.world.context c).scope = t && e.world.modules.has m &&
    ((e.world.modules.get m).name = [] || (e.world.modules.get m).name = source.name)

end ScriptHost
