import ScriptHost.Proofs.Embedder.Following
import ScriptHost.Proofs.Names

set_option autoImplicit false

namespace ScriptHost

namespace Resolution

def key : Resolution → Bytes
  | ofClass key _ | ofFunction key _ | ofConstant key _ => key

def IsPlain (r : Resolution) : Prop := r.key.head? ≠ some 0x5c

end Resolution

namespace World

variable {τ σ : Type}

theorem context_updateContext (w : World τ) (c d : ContextId) (f : Context → Context) :
    (w.updateContext c f).context d =
      if c = d ∧ w.contexts.has c then f (w.context d) else w.context d :=
  w.contexts.get_modify c d f

theorem updateContext_updateContext (w : World τ) (c : ContextId) (f g : Context → Context) :
    (w.updateContext c f).updateContext c g = w.updateContext c fun x => g (f x) :=
  congrArg (fun contexts => { w with contexts }) (Pool.modify_modify ..)

theorem scopeOf_updateContext (w : World τ) (c d : ContextId) (f : Context → Context)
    (keeps : ∀ x, (f x).scope = x.scope) : (w.updateContext c f).scopeOf d = w.scopeOf d :=
  congrArg w.scopes.get (w.contexts.modify_keeps c d f Context.scope keeps)

theorem context_install (w : World τ) (x : Context) {c : ContextId} (known : w.contexts.has c) :
    (w.install x).context c = w.context c :=
  Pool.get_add_of_has w.contexts x known

theorem context_enlist (w : World τ) (s : ScopeId) (sink : SinkId) {c : ContextId}
    (known : w.contexts.has c) : (w.enlist s sink).context c = w.context c :=
  (w.provide s).context_install _ known

theorem Resolves.of_contexts {w w' : World τ} {c : ContextId} {r : Resolution}
    (same : w'.contexts = w.contexts) (holds : w.Resolves c r) : w'.Resolves c r := by
  rwa [Resolves, context, same]

theorem Resolves.update {w : World τ} {c : ContextId} {r : Resolution} (holds : w.Resolves c r)
    (d : ContextId) (f : Context → Context)
    (keeps : d = c → r.HoldsIn (w.context c).holdings → r.HoldsIn (f (w.context c)).holdings) :
    (w.updateContext d f).Resolves c r := by
  unfold Resolves
  rw [context_updateContext]
  split
  next same => exact keeps same.1 holds
  next => exact holds

theorem Resolves.updateUnnamed {w : World τ} {c : ContextId} {r : Resolution}
    (holds : w.Resolves c r) (d : ContextId) (f : Context → Context)
    (classes : ∀ x, (f x).classes = x.classes) (functions : ∀ x, (f x).functions = x.functions)
    (constants : ∀ x, (f x).constants = x.constants) : (w.updateContext d f).Resolves c r := by
  refine holds.update d f fun _ there => ?_
  cases r with
  | ofClass => simpa [Resolution.HoldsIn, Context.holdings, classes] using there
  | ofFunction => simpa [Resolution.HoldsIn, Context.holdings, functions] using there
  | ofConstant => simpa [Resolution.HoldsIn, Context.holdings, constants] using there

theorem Resolves.popFrame {w : World τ} {c : ContextId} {r : Resolution} (holds : w.Resolves c r)
    (d : ContextId) : (w.popFrame d).Resolves c r := by
  unfold World.popFrame
  split
  next => exact holds
  next => exact holds.updateUnnamed d _ (fun _ => rfl) (fun _ => rfl) (fun _ => rfl)

theorem Resolves.updateLoaders {w : World τ} {c : ContextId} {r : Resolution}
    (holds : w.Resolves c r) (d : ContextId) (f : AutoloadChain → AutoloadChain) :
    (w.updateLoaders d f).Resolves c r :=
  holds.updateUnnamed d _ (fun _ => rfl) (fun _ => rfl) (fun _ => rfl)

theorem Resolves.pushFrame {w : World τ} {c : ContextId} {r : Resolution} (holds : w.Resolves c r)
    (d : ContextId) (f : Frame) : (w.pushFrame d f).Resolves c r :=
  holds.updateUnnamed d _ (fun _ => rfl) (fun _ => rfl) (fun _ => rfl)

end World

section

variable {σ : Type} {making : List ContextId} {w w' : Recorded σ} {c : ContextId}

theorem World.Entrance.free {k : ClassId} (entrance : w.Entrance making c k) (sound : w.Sound)
    (own : ∀ parent options,
      w.embedder.running.head? = some (.newChild parent options) → c ∉ making)
    (plain : (w.classes.get k).lowerName.head? ≠ some 0x5c) :
    (w.context c).classes.get? (w.classes.get k).lowerName = none := by
  cases entrance with
  | fetched lower absent shared =>
    obtain ⟨_, rfl⟩ := (sound.scopes _).classes lower k shared
    exact absent
  | declared absent =>
    rwa [withoutSeparator_of_plain (mt (Bytes.head?_lower _).2 plain)] at absent
  | takenOver inside parent options running => exact absurd inside (own parent options running)

theorem World.Entrance.absent {k : ClassId} (entrance : w.Entrance making c k) (sound : w.Sound)
    (finished : c ∉ making) (plain : (w.classes.get k).lowerName.head? ≠ some 0x5c) :
    (w.context c).classes.get? (w.classes.get k).lowerName = none :=
  entrance.free sound (fun _ _ _ => finished) plain

theorem World.Entrance.apart {d : ContextId} {k : ClassId} (entrance : w.Entrance making d k)
    (sound : w.Sound)
    (own : ∀ parent options,
      w.embedder.running.head? = some (.newChild parent options) → c ∉ making)
    {r : Resolution} (plain : r.IsPlain) (holds : w.Resolves c r) :
    d = c → ∀ b, r ≠ .ofClass (w.classes.get k).lowerName b := by
  rintro rfl b rfl
  exact nomatch holds.symm.trans (entrance.free sound own plain)

theorem World.Resolves.insertClass {r : Resolution} (holds : w.Resolves c r) (d : ContextId)
    (k : ClassId) (apart : d = c → ∀ b, r ≠ .ofClass (w.classes.get k).lowerName b) :
    (w.insertClass d k).Resolves c r := by
  refine holds.update d _ fun same there => ?_
  cases r with
  | ofClass key b =>
    have other : key ≠ (w.classes.get k).lowerName := by
      rintro rfl
      exact apart same b rfl
    exact (Table.get?_insert ..).trans ((if_neg other).trans there)
  | ofFunction | ofConstant => exact there

theorem World.Resolves.enlist {r : Resolution} (holds : w.Resolves c r) (s : ScopeId)
    (sink : SinkId) (known : w.contexts.has c) : (w.enlist s sink).Resolves c r := by
  unfold World.Resolves
  rwa [World.context_enlist w s sink known]

theorem World.Resolves.insertFunction {r : Resolution} (holds : w.Resolves c r) (d : ContextId)
    (lower : Bytes) (f : FunctionId) (apart : d = c → ∀ b, r ≠ .ofFunction lower b) :
    (w.updateContext d fun x => { x with functions := x.functions.insert lower f }).Resolves c r := by
  refine holds.update d _ fun same there => ?_
  cases r with
  | ofFunction key b =>
    have other : key ≠ lower := by
      rintro rfl
      exact apart same b rfl
    exact (Table.get?_insert ..).trans ((if_neg other).trans there)
  | ofClass | ofConstant => exact there

theorem World.insertClass_resolves {τ : Type} {w : World τ} (there : w.contexts.has c) (k : ClassId) :
    (w.insertClass c k).Resolves c (.ofClass (w.classes.get k).lowerName k) := by
  unfold World.Resolves World.insertClass
  rw [World.context_updateContext, if_pos ⟨rfl, there⟩]
  exact (Table.get?_insert ..).trans (if_pos rfl)

theorem Change.keeps (step : Change making w w') (sound : w.Sound) (finished : c ∉ making)
    {r : Resolution} (plain : r.IsPlain) (holds : w.Resolves c r) : w'.Resolves c r := by
  -- what enters a context enters it under a name that is free there; only what a child takes over
  -- from its parent is not looked up before, and then the child is not finished
  cases step with
  | surroundings | addClass | addMethod | shareClass | addFunction | shareFunction | addConstant
  | addModule | addObject | markFinalized | addScope | setDefaults | declareClass | declareFunction
  | declareConstant | note | setOwn => exact holds
  | adjust d f adjusts => exact holds.update d f fun _ there => by rwa [(adjusts _).holdings]
  | pushCall d f => exact holds.pushFrame d f
  | popCall d => exact holds.popFrame d
  | close d =>
    have shut := holds.updateUnnamed d (fun x => { x with isClosed := true }) (fun _ => rfl)
      (fun _ => rfl) fun _ => rfl
    exact shut.of_contexts rfl
  | assign d | remember d | reclaim d | drain d | track d =>
    exact holds.updateUnnamed d _ (fun _ => rfl) (fun _ => rfl) (fun _ => rfl)
  | inherit d p inside =>
    exact holds.update d _ fun same => absurd (same ▸ inside) finished
  | loadClass d k known entrance =>
    exact holds.insertClass d k (entrance.apart sound (fun _ _ _ => finished) plain holds)
  | cacheFunction d lower f absent =>
    refine holds.insertFunction d lower f ?_
    rintro rfl b rfl
    exact nomatch holds.symm.trans absent
  | insertFunction d f known absent =>
    refine holds.insertFunction d _ f ?_
    rintro rfl b rfl
    rw [withoutSeparator_of_plain (mt (Bytes.head?_lower _).2 plain)] at absent
    exact nomatch holds.symm.trans absent
  | mergeFunctions d =>
    refine holds.update d _ fun same there => ?_
    subst same
    cases r with
    | ofFunction key b =>
      have own : (w.context d).functions.get? key = some b := there
      exact (Table.get?_overlay ..).trans (by rw [own, Option.some_or])
    | ofClass | ofConstant => exact there
  | cacheConstant d name k absent shared =>
    refine holds.update d _ fun same there => ?_
    subst same
    cases r with
    | ofConstant key b =>
      have own := ((sound.scopes _).find_constant shared).2
      obtain ⟨apart, apartLower⟩ := ConstantSet.apart_of_find? absent there
      refine ConstantSet.find?_add _ k there (fun sensitive => ?_) (fun folded exactly => ?_)
      · rw [if_pos sensitive] at own
        rwa [own]
      · rw [folded] at own
        rw [own]
        exact apartLower exactly
    | ofClass | ofFunction => exact there
  | insertConstant d k known absent =>
    refine holds.update d _ fun same there => ?_
    subst same
    cases r with
    | ofConstant key b =>
      by_cases own : (w.constants.get k).name.head? = some 0x5c
      -- the name that was looked up lacks the separator, but no plain name has one
      · refine ConstantSet.find?_add _ k there (fun _ => ?_) (fun _ _ => ?_)
        · rintro rfl
          exact plain own
        · intro same
          exact plain ((Bytes.head?_lower _).1 (same ▸ (Bytes.head?_lower _).2 own))
      · rw [withoutSeparator_of_plain own] at absent
        obtain ⟨apart, apartLower⟩ := ConstantSet.apart_of_find? absent there
        exact ConstantSet.find?_add _ k there (fun _ => apart) (fun _ => apartLower)
    | ofClass | ofFunction => exact there

theorem Change.keepsClass (step : Change making w w') (sound : w.Sound)
    (own : ∀ parent options,
      w.embedder.running.head? = some (.newChild parent options) → c ∉ making)
    {key : Bytes} {k : ClassId} (plain : key.head? ≠ some 0x5c)
    (holds : w.Resolves c (.ofClass key k)) : w'.Resolves c (.ofClass key k) := by
  cases step with
  | surroundings | addClass | addMethod | shareClass | addFunction | shareFunction | addConstant
  | addModule | addObject | markFinalized | addScope | setDefaults | declareClass | declareFunction
  | declareConstant | note | setOwn => exact holds
  | adjust d f adjusts => exact holds.update d f fun _ there => by rwa [(adjusts _).holdings]
  | popCall d => exact holds.popFrame d
  | close d =>
    have shut := holds.update d (fun x => { x with isClosed := true }) fun _ there => there
    exact shut.of_contexts rfl
  | loadClass d k known entrance =>
    exact holds.insertClass d k (entrance.apart sound own plain holds)
  | pushCall d | assign d | remember d | cacheFunction d | insertFunction d | mergeFunctions d
  | cacheConstant d | insertConstant d | inherit d | reclaim d | drain d | track d =>
    exact holds.update d _ fun _ there => there

theorem World.Resolves.leaveHook {r : Resolution} (holds : w.Resolves c r) (d : ContextId)
    (lower : Bytes) (hook : Callback) (outcome : Except Signal (Option Failure))
    (apart : d = c → ∀ k, r ≠ .ofClass lower k) :
    (w.leaveHook d lower hook outcome).Resolves c r := by
  unfold World.leaveHook
  split
  next =>
    refine World.Resolves.update (w := w.note _) holds d _ fun same there => ?_
    cases r with
    | ofClass key k =>
      have other : key ≠ lower := by
        rintro rfl
        exact apart same k rfl
      exact (Table.get?_erase ..).trans ((if_neg other).trans there)
    | ofFunction | ofConstant => exact there
  next => exact holds

theorem Course.resolves_throughout (course : Course making w w') (sound : w.Sound)
    (known : w.contexts.has c) (finished : c ∉ making) {r : Resolution} (plain : r.IsPlain)
    (holds : w.Resolves c r) : w'.Resolves c r ∧ w.Adds (·.world.Resolves c r) w' := by
  induction course with
  | still => exact ⟨holds, .of_same rfl⟩
  | change step => exact ⟨step.keeps sound finished plain holds, step.adds fun _ _ _ => holds⟩
  | trans first _ ih ih' =>
    obtain ⟨between, early⟩ := ih sound known finished holds
    have still := (first.extends.contexts c known).1
    obtain ⟨ended, late⟩ := ih' (first.sound sound) still finished between
    exact ⟨ended, early.trans late⟩
  | operation o outcome _ _ _ ih =>
    obtain ⟨ended, within⟩ := ih (sound.begin o) known List.not_mem_nil holds
    exact ⟨ended, World.Adds.finish within ended⟩
  | frame d f _ calls ih =>
    obtain ⟨ended, within⟩ := ih (sound.pushFrame d calls.known)
      ((World.extends_pushFrame _ d f).contexts c known).1 finished (holds.pushFrame d f)
    exact ⟨ended.popFrame d, World.Adds.popFrame within d⟩
  | @autoload _ w _ d key _ _ _ _ ih =>
    obtain ⟨ended, within⟩ := ih (sound.updateLoaders d _)
      ((w.extends_updateLoaders d (·.enter key)).contexts c known).1 finished
      (holds.updateLoaders d _)
    exact ⟨ended.updateLoaders d _, within.trans (.of_same rfl)⟩
  | @destructor _ w v _ d o k f _ there _ retires _ calls ih =>
    have given : v.Resolves c r := retires.elim (P := (·.Resolves c r)) there calls.acts holds
      fun step => step.keeps (sound.markFinalized o) finished plain holds
    have pushed := given.pushFrame d f
    have onward := retires.extends.trans (World.extends_pushFrame v d f)
    obtain ⟨ended, within⟩ := ih ((sound.destroying retires calls.known).note _)
      (onward.contexts c known).1 finished pushed
    have called := World.Adds.of_event (v := v.pushFrame d f) retires.embedder pushed within
    exact ⟨ended.popFrame d, called.popFrame d⟩
  | @hook _ w _ d k k' _ isKnown entrance _ outcome _ _ _ ih =>
    -- the class of a hook enters where nothing is yet, so leaving again takes nothing else away
    have apart := entrance.apart sound (fun _ _ _ => finished) plain holds
    have inserted : (w.insertClass d k).Resolves c r := holds.insertClass d k apart
    obtain ⟨ended, within⟩ := ih ((sound.insertClass d k isKnown).note _)
      ((World.extends_insertClass _ d k).contexts c known).1 List.not_mem_nil inserted
    exact ⟨ended.leaveHook d _ k' outcome apart,
      (World.Adds.of_event rfl inserted within).leaveHook ended⟩
  | registration d m _ _ _ _ ih =>
    obtain ⟨ended, within⟩ := ih sound known finished holds
    exact ⟨ended.updateUnnamed d _ (fun _ => rfl) (fun _ => rfl) (fun _ => rfl),
      within.trans (.of_same rfl)⟩
  | attempt _ _ _ _ ih => exact ih (sound.setImporting _ true) known finished holds
  | @loading _ w _ _ _ d source _ _ _ before event m _ _ ended ih ih' =>
    have locked := sound.setImporting (w.context d).scope true
    obtain ⟨answered, early⟩ := ih locked known finished holds
    obtain ⟨kept, late⟩ := ih' ((before.sound locked).note event)
      (before.extends.contexts c known).1 finished answered
    have since := World.Adds.of_event rfl answered late
    exact ⟨kept.of_contexts ended.contexts,
      World.Adds.trans early (since.trans (.of_same (congrArg Ledger.journal ended.embedder)))⟩
  | @creation w _ s sink housed _ _ ih =>
    have unfinished : c ∉ [w.contexts.next] :=
      mt List.mem_singleton.1 (Pool.ne_next_of_has _ known)
    have there := ((w.extends_enlist s sink).contexts c known).1
    exact ih (sound.enlist housed sink) there unfinished (holds.enlist s sink known)

theorem Course.keeps (course : Course making w w') (sound : w.Sound) (known : w.contexts.has c)
    (finished : c ∉ making) {r : Resolution} (plain : r.IsPlain) (holds : w.Resolves c r) :
    w'.Resolves c r :=
  (course.resolves_throughout sound known finished plain holds).1

end

end ScriptHost
