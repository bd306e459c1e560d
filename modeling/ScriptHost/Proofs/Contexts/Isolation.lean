import ScriptHost.Proofs.Calls.Balance
import ScriptHost.Proofs.Contexts.Roll

set_option autoImplicit false

namespace ScriptHost

variable {σ τ : Type} {making : List ContextId}

def Operation.reaches (c : ContextId) (globals : TableId) : Operation → Bool
  | act d _ => d = c
  | modifyTable t _ => t = globals
  | _ => false

def Event.reaches (c : ContextId) (globals : TableId) : Event → Bool
  | .finished o _ => o.reaches c globals
  | _ => false

namespace World

structure Leaves (c : ContextId) (w w' : World τ) : Prop where
  context : w'.context c = w.context c
  globals : w'.tables.get (w.context c).globals = w.tables.get (w.context c).globals

namespace Leaves

variable {u v w : World τ} {c d : ContextId}

theorem refl (c : ContextId) (w : World τ) : Leaves c w w := ⟨rfl, rfl⟩

theorem trans (first : Leaves c u v) (rest : Leaves c v w) : Leaves c u w where
  context := rest.context.trans first.context
  globals := by
    have same := rest.globals
    rw [first.context] at same
    exact same.trans first.globals

theorem of_same {w w' : World τ} (contexts : w'.contexts = w.contexts)
    (tables : w'.tables = w.tables) : Leaves c w w' :=
  ⟨by rw [World.context, contexts, World.context], by rw [tables]⟩

theorem updateContext (apart : d ≠ c) (f : Context → Context) : Leaves c w (w.updateContext d f) :=
  ⟨by rw [context_updateContext, if_neg fun both => apart both.1], rfl⟩

theorem popFrame (apart : d ≠ c) : Leaves c w (w.popFrame d) := by
  unfold World.popFrame
  split
  next => exact refl c w
  next => exact updateContext apart _

theorem markFinalized (o : ObjectId) : Leaves c w (w.markFinalized o) := of_same rfl rfl

theorem setImporting (s : ScopeId) (isImporting : Bool) :
    Leaves c w (w.setImporting s isImporting) := of_same rfl rfl

theorem enlist (laidOut : w.roll.IsLaidOut) (there : w.contexts.has c) (s : ScopeId)
    (sink : SinkId) : Leaves c w (w.enlist s sink) := by
  have inside : (w.context c).globals.index < w.tables.size := by
    have supplied := laidOut.supplied c ((w.has_roll c).trans there)
    rwa [w.lease_roll c] at supplied
  have known : w.tables.has (w.context c).globals := decide_eq_true inside
  refine ⟨w.context_enlist s sink there, ?_⟩
  show ((w.tables.add .empty).modify w.tables.next _).get _ = _
  rw [Pool.get_modify_of_ne _ _ (Pool.ne_next_of_has _ known).symm, Pool.get_add_of_has _ _ known]

end Leaves

variable {w w' : Recorded σ} {c : ContextId}

theorem Leaves.leaveHook {d : ContextId} (apart : d ≠ c) (lower : Bytes) (hook : Callback)
    (outcome : Except Signal (Option Failure)) :
    Leaves c w (w.leaveHook d lower hook outcome) := by
  unfold World.leaveHook
  split
  next => exact .trans (v := w.note _) (.of_same rfl rfl) (.updateContext apart _)
  next => exact .of_same rfl rfl

theorem Concluded.tables {s : ScopeId} {source : Source} {m : ModuleId}
    (ended : w.Concluded s source m w') : w'.tables = w.tables := by
  rcases ended with rfl | ⟨rfl, -⟩
  · obtain ⟨_, _, _, same⟩ := w.conclude_same s source m
    rw [same]
  · rfl

structure IsApart (w : Recorded σ) (making : List ContextId) (c : ContextId) : Prop where
  laidOut : w.roll.IsLaidOut
  there : w.contexts.has c
  made : c ∉ making
  running : ∀ o, w.embedder.running.head? = some o → o.reaches c (w.context c).globals = false

namespace IsApart

variable (apart : w.IsApart making c)
include apart

theorem ne_of_asked {d : ContextId} {a : Action}
    (asked : w.embedder.running.head? = some (.act d a)) : d ≠ c :=
  of_decide_eq_false (apart.running _ asked)

theorem ne_of_acts {d : ContextId} (acts : w.ActsFor making d) : d ≠ c := by
  rcases acts with inside | ⟨a, asked⟩
  · rintro rfl
    exact apart.made inside
  · exact apart.ne_of_asked asked

theorem later (course : Course making w w') (leaves : Leaves c w w') : w'.IsApart making c where
  laidOut := World.laidOut_kept.course course apart.laidOut
  there := (course.extends.contexts c apart.there).1
  made := apart.made
  running o asked := by
    rw [leaves.context]
    exact apart.running o (course.running ▸ asked)

theorem same (leaves : Leaves c w w') (roll : w'.roll = w.roll)
    (running : w'.embedder.running = w.embedder.running) : w'.IsApart making c where
  laidOut := roll ▸ apart.laidOut
  there := by
    rw [← w'.has_roll, roll, w.has_roll]
    exact apart.there
  made := apart.made
  running o asked := by
    rw [leaves.context]
    exact apart.running o (running ▸ asked)

theorem supplies {tables : Pool .tables (Table Value)} (supplies : w.Supplies making tables) :
    tables.get (w.context c).globals = w.tables.get (w.context c).globals := by
  cases supplies with
  | same => rfl
  | added t =>
    have inside := apart.laidOut.supplied c ((w.has_roll c).trans apart.there)
    rw [w.lease_roll c] at inside
    exact Pool.get_add_of_has _ _ (decide_eq_true inside)
  | assigned d there acts f =>
    refine Pool.get_modify_of_ne _ _ fun same => apart.ne_of_acts acts ?_
    refine apart.laidOut.apart d c ((w.has_roll d).trans there)
      ((w.has_roll c).trans apart.there) ?_
    rw [w.lease_roll d, w.lease_roll c]
    exact same
  | asked t f running =>
    exact Pool.get_modify_of_ne _ _ (of_decide_eq_false (apart.running _ running))

end IsApart

end World

theorem Change.leaves {w w' : Recorded σ} {c : ContextId} (step : Change making w w')
    (apart : w.IsApart making c) : World.Leaves c w w' := by
  cases step with
  | surroundings _ _ _ _ _ _ _ _ supplies => exact ⟨rfl, apart.supplies supplies⟩
  | adjust _ _ _ acts | remember _ _ _ _ _ _ acts | loadClass _ _ _ _ _ acts
  | cacheFunction _ _ _ _ _ acts | insertFunction _ _ _ _ _ acts | mergeFunctions _ acts
  | cacheConstant _ _ _ _ _ acts | insertConstant _ _ _ _ acts | reclaim _ _ _ acts | drain _ acts
  | track _ _ _ acts => exact .updateContext (apart.ne_of_acts acts) _
  | inherit _ _ inside => exact .updateContext (apart.ne_of_acts (.inl inside)) _
  | pushCall _ _ _ _ asked _ | assign _ _ _ _ _ _ _ asked =>
    exact .updateContext (apart.ne_of_asked asked) _
  | close d _ _ _ asked =>
    exact .trans (v := w.shut d) (.updateContext (apart.ne_of_asked asked) _) (.of_same rfl rfl)
  | popCall _ _ _ asked => exact .popFrame (apart.ne_of_asked asked)
  | _ => exact .of_same rfl rfl

theorem Course.leaves {w w' : Recorded σ} {c : ContextId} (course : Course making w w')
    (apart : w.IsApart making c)
    (adds : w.Adds (·.event.reaches c (w.context c).globals = false) w') :
    World.Leaves c w w' := by
  induction course with
  | still w => exact .refl c w
  | change step => exact step.leaves apart
  | trans first rest ih ih' =>
    obtain ⟨early, late⟩ := adds.split first.journal rest.journal
    have begun := ih apart early
    exact begun.trans (ih' (apart.later first begun) (begun.context ▸ late))
  | @operation _ w w' o outcome inner _ _ ih =>
    -- that the operation does not reach the context is known from its end, which is recorded last
    obtain ⟨within, ended⟩ := adds.of_finish inner.journal
    have begun : World.Leaves c w (w.begin o) := .of_same rfl rfl
    refine (begun.trans (ih ⟨apart.laidOut, apart.there, List.not_mem_nil, ?_⟩ within)).trans
      (.of_same rfl rfl)
    rintro p ⟨⟩
    exact ended
  | @frame _ w w' d f inner calls ih =>
    have other := apart.ne_of_acts calls.acts
    have pushed : World.Leaves c w (w.pushFrame d f) := .updateContext other _
    have within := (adds.split inner.journal (w'.journal_popFrame d)).1
    have ended := ih (apart.same pushed (World.roll_pushFrame f) rfl) (pushed.context ▸ within)
    exact (pushed.trans ended).trans (.popFrame other)
  | @autoload _ w w' d key _ _ inner acts ih =>
    have other := apart.ne_of_acts acts
    have entered : World.Leaves c w (w.updateLoaders d (·.enter key)) := .updateContext other _
    have roll : (w.updateLoaders d (·.enter key)).roll = w.roll :=
      World.roll_updateContext fun _ => rfl
    have ended := ih (apart.same entered roll rfl) (entered.context ▸ adds)
    exact (entered.trans ended).trans (.updateContext other _)
  | @destructor _ w v w' d o k f _ known _ retires inner calls ih =>
    have other := apart.ne_of_acts calls.acts
    have marked : World.Leaves c w (w.markFinalized o) := .markFinalized o
    have apart' := apart.same marked (World.roll_markFinalized o) rfl
    have given : World.Leaves c w v := retires.elim (P := World.Leaves c w) known calls.acts marked
      fun step => marked.trans (step.leaves apart')
    have pushed : World.Leaves c w (v.pushFrame d f) := given.trans (.updateContext other _)
    have called : World.Leaves c w ((v.pushFrame d f).note (.called (.destroyObject k d o))) :=
      pushed.trans (.of_same rfl rfl)
    have roll : (v.pushFrame d f).roll = w.roll := (World.roll_pushFrame f).trans retires.roll
    obtain ⟨-, -, inside⟩ := adds.split_event (v := v.pushFrame d f)
      (retires.journal ▸ List.prefix_rfl) inner.journal (w'.journal_popFrame d)
    have ended := ih (apart.same called roll retires.running) (pushed.context ▸ inside)
    exact (called.trans ended).trans (.popFrame other)
  | @hook _ w w' d k k' _ _ _ _ outcome inner acts _ ih =>
    have other := apart.ne_of_acts acts
    have inserted : World.Leaves c w (w.insertClass d k) := .updateContext other _
    have called : World.Leaves c w ((w.insertClass d k).note (.called (.enterClass k' d))) :=
      inserted.trans (.of_same rfl rfl)
    obtain ⟨-, -, inside⟩ := adds.split_event (v := w.insertClass d k) List.prefix_rfl inner.journal
      (w'.prefix_leaveHook d (w.classes.get k).lowerName k' outcome)
    have inner := apart.same called (World.roll_insertClass k) rfl
    have ended := ih ⟨inner.laidOut, inner.there, List.not_mem_nil, inner.running⟩
      (called.context ▸ inside)
    exact (called.trans ended).trans (.leaveHook other _ _ _)
  | registration d m _ _ _ acts ih =>
    exact (ih apart adds).trans (.updateContext (apart.ne_of_acts acts) _)
  | @attempt _ w _ d _ _ _ ih =>
    have locked : World.Leaves c w (w.setImporting (w.context d).scope true) := .setImporting _ true
    have inner := apart.same locked (World.roll_setImporting true) rfl
    exact (locked.trans (ih inner adds)).trans (.setImporting _ false)
  | @loading _ w u v w' d source _ _ _ before event m _ after ended ih ih' =>
    have locked : World.Leaves c w (w.setImporting (w.context d).scope true) := .setImporting _ true
    have locking := apart.same locked (World.roll_setImporting true) rfl
    obtain ⟨early, -, late⟩ := adds.split_event before.journal after.journal ended.journal
    have begun := ih locking early
    have loaded : World.Leaves c u (u.note event) := .of_same rfl rfl
    have first := (locked.trans begun).trans loaded
    have inner := (locking.later before begun).same loaded rfl rfl
    have concluded : World.Leaves c v w' := .of_same ended.contexts ended.tables
    exact (first.trans (ih' inner (first.context ▸ late))).trans
      (concluded.trans (.setImporting _ false))
  | @creation w w' s sink known asked inner ih =>
    have enlisted := World.Leaves.enlist apart.laidOut apart.there s sink
    refine enlisted.trans (ih ⟨?_, Pool.has_add _ _ _ apart.there, ?_, ?_⟩
      (enlisted.context ▸ adds))
    · rw [w.roll_enlist]
      exact apart.laidOut.enlist ((w.scopes.has_map Scope.setup s).trans known)
    · exact mt List.mem_singleton.1 (Pool.ne_next_of_has _ apart.there)
    · rw [enlisted.context]
      exact apart.running

structure Roll.Grows (r r' : Roll) : Prop where
  scopes : ∀ s, r.scopes.has s → r'.scopes.has s ∧ r'.scopes.get s = r.scopes.get s
  objects : ∀ o, r.objects.has o → r'.objects.has o ∧ r'.objects.get o = r.objects.get o

theorem Roll.Step.grows {asked : Option Operation} {r r' first : Roll} (step : Step asked r r')
    (grows : first.Grows r) : first.Grows r' := by
  cases step with
  | newScope s =>
    refine ⟨fun t known => ?_, grows.objects⟩
    obtain ⟨there, same⟩ := grows.scopes t known
    exact ⟨Pool.has_add _ _ _ there, (Pool.get_add_of_has _ _ there).trans same⟩
  | newObject o =>
    refine ⟨grows.scopes, fun d known => ?_⟩
    obtain ⟨there, same⟩ := grows.objects d known
    exact ⟨Pool.has_add _ _ _ there, (Pool.get_add_of_has _ _ there).trans same⟩
  | _ => exact ⟨grows.scopes, grows.objects⟩

namespace World

theorem grows_kept (first : Roll) : IsKept fun w : Recorded σ => first.Grows w.roll where
  step grows step _ _ := step.grows grows
  note _ _ grows := grows
  begin _ _ grows := grows
  finish _ _ _ _ _ grows := grows

structure IsPartitioned (w : World τ) : Prop where
  sound : w.Sound
  laidOut : w.roll.IsLaidOut

end World

/-- Contexts are isolated. An operation that is not asked of a context leaves everything in it as it
is, and its variables, unless callbacks ask something of the context meanwhile. What a scope has
been set up with stays, and so does every object apart from its mark. This holds in every world in
which what is named exists and no two contexts share their variables, and all worlds of all runs are
so. -/
theorem Script.contexts_isolated (s : Script σ) (depth : Nat) :
    (∀ (ρ : Type) (code : Code σ ρ) (files : FileTree) (own : σ),
      (code.run (s.host depth) (.start files own)).2.IsPartitioned ∧
      ∀ m ∈ s.journal depth code files own, m.world.IsPartitioned) ∧
    ∀ (w w' : Recorded σ) (o : Operation) (outcome : Except Signal o.Result), w.IsPartitioned →
      o.request (s.host depth) (w.begin o) = (outcome, w') →
      w'.IsPartitioned ∧
      (∀ c, w.contexts.has c → o.reaches c (w.context c).globals = false →
        (∀ m ∈ w.since w', m.event.reaches c (w.context c).globals = false) →
        w'.context c = w.context c ∧
        w'.tables.get (w.context c).globals = w.tables.get (w.context c).globals) ∧
      (∀ t, w.scopes.has t → (w'.scopes.get t).setup = (w.scopes.get t).setup) ∧
      ∀ x, w.objects.has x → (w'.objects.get x).unmarked = (w.objects.get x).unmarked := by
  refine ⟨fun ρ code files own => ?_, fun w w' o outcome partitioned result => ?_⟩
  · have always : (code.run (s.host depth) (.start files own)).2.Always (·.roll.IsLaidOut) :=
      Script.always World.laidOut_kept (World.start_laidOut files own)
    refine ⟨⟨(s.course depth code files own).sound (World.start_sound files own), always.1⟩, ?_⟩
    intro m member
    obtain ⟨before, after, split⟩ := List.append_of_mem member
    exact ⟨(Script.regular_of_journal member).sound, always.2 before m after split⟩
  · have course := Operation.request_within (s.host_follows depth) partitioned.sound.ready o
    rw [result] at course
    -- what a scope is set up with and what an object is are on the roll, where nothing is ever
    -- changed
    have grows := (World.grows_kept w.roll).course course
      ⟨fun _ known => ⟨known, rfl⟩, fun _ known => ⟨known, rfl⟩⟩
    refine ⟨⟨course.sound (partitioned.sound.begin o),
      World.laidOut_kept.course course partitioned.laidOut⟩, fun c there apart quiet => ?_,
      fun t known => ?_, fun x known => ?_⟩
    · have leaves := course.leaves (c := c)
        ⟨partitioned.laidOut, there, List.not_mem_nil, fun p asked => Option.some.inj asked ▸ apart⟩
        (World.adds_of_since course.journal quiet)
      exact ⟨leaves.context, leaves.globals⟩
    · have same := (grows.scopes t ((w.scopes.has_map Scope.setup t).trans known)).2
      rwa [w'.setup_roll, w.setup_roll] at same
    · have same := (grows.objects x ((w.objects.has_map Object.unmarked x).trans known)).2
      rwa [w'.object_roll, w.object_roll] at same

def diligent : Script Unit where
  patience := 1
  code
    | .autoload _ c _ =>
      .each () [.act c (.setGlobal "x" (.bool true)), .act c (.registerClass ⟨0⟩)]
    | _ => .done (.error .exhausted)

def twoContexts : Recorded Unit :=
  ((Code.each () [.newAllocator, .newScope { ids := ⟨0⟩ }, .newSink {}, .newContext ⟨0⟩ ⟨0⟩ {},
      .newContext ⟨0⟩ ⟨0⟩ {}, .newClass (.make "foo" none),
      .act ⟨0⟩ (.addLoader ⟨"l", .callback ⟨0⟩⟩ false)] : Code Unit Unit).run (diligent.host 2)
    (.start (FileTree.make "/") ())).2

def firstFetch : Operation := .act ⟨0⟩ (.fetchClass "foo")

def afterFetch : Recorded Unit :=
  (firstFetch.request (diligent.host 2) (twoContexts.begin firstFetch)).2

theorem contexts_isolated_loader :
    twoContexts.contexts.has ⟨1⟩ ∧
    (twoContexts.tables.get (twoContexts.context ⟨0⟩).globals).contains "x" = false ∧
    (afterFetch.tables.get (afterFetch.context ⟨0⟩).globals).contains "x" ∧
    (afterFetch.context ⟨0⟩).classes.contains "foo" ∧
    afterFetch.context ⟨1⟩ = twoContexts.context ⟨1⟩ := by
  obtain ⟨runs, isolated⟩ := diligent.contexts_isolated 2
  have result :
      firstFetch.request (diligent.host 2) (twoContexts.begin firstFetch) = (_, afterFetch) :=
    (Prod.eta _).symm
  obtain ⟨-, apart, -⟩ := isolated twoContexts afterFetch firstFetch _ (runs _ _ _ _).1 result
  exact ⟨by decide +kernel, by decide +kernel, by decide +kernel, by decide +kernel,
    (apart ⟨1⟩ (by decide +kernel) rfl (by decide +kernel)).1⟩

end ScriptHost
