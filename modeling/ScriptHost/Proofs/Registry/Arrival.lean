import Mathlib
import ScriptHost.Proofs.Registry.Hooks
import ScriptHost.Proofs.Registry.Refusal

set_option autoImplicit false

namespace ScriptHost

open Run

variable {σ : Type} {making : List ContextId} {hook : Callback} {c : ContextId} {k : ClassId}

namespace World

variable {τ : Type} {w w' : World τ}

def Contains (w : World τ) (c : ContextId) (k : ClassId) : Prop :=
  ∃ key, (w.context c).classes.get? key = some k

instance : Decidable (w.Contains c k) := decidable_of_iff _ Table.mem_values

def Owns (w : World τ) (k : ClassId) (hook : Callback) : Prop :=
  w.classes.has k → (w.classes.get k).onEnter = some hook

theorem Owns.before (owns : w'.Owns k hook) (later : w.Extends w') : w.Owns k hook := by
  intro known
  obtain ⟨there, -, same⟩ := later.classes k known
  exact same.symm.trans (owns there)

theorem Contains.of_context (same : (w'.context c).classes = (w.context c).classes)
    (contains : w'.Contains c k) : w.Contains c k := by
  obtain ⟨key, found⟩ := contains
  exact ⟨key, same ▸ found⟩

theorem Contains.of_update {d : ContextId} {f : Context → Context}
    (contains : (w.updateContext d f).Contains c k)
    (fewer : ∀ x key, (f x).classes.get? key = some k → x.classes.get? key = some k) :
    w.Contains c k := by
  obtain ⟨key, found⟩ := contains
  rw [context_updateContext] at found
  split at found
  next => exact ⟨key, fewer _ key found⟩
  next => exact ⟨key, found⟩

theorem Contains.of_popFrame {d : ContextId} (contains : (w.popFrame d).Contains c k) :
    w.Contains c k := by
  unfold World.popFrame at contains
  split at contains
  next => exact contains
  next => exact contains.of_update fun _ _ found => found

theorem Contains.of_insertClass {d : ContextId} {j : ClassId} (apart : d = c → j ≠ k)
    (contains : (w.insertClass d j).Contains c k) : w.Contains c k := by
  obtain ⟨key, found⟩ := contains
  unfold World.insertClass at found
  rw [context_updateContext] at found
  split at found
  next here =>
    rw [Table.get?_insert] at found
    split at found
    next => exact absurd (Option.some.inj found) (apart here.1)
    next => exact ⟨key, found⟩
  next => exact ⟨key, found⟩

theorem Contains.of_enlist {s : ScopeId} {sink : SinkId} (contains : (w.enlist s sink).Contains c k) :
    w.Contains c k := by
  by_cases known : w.contexts.has c
  next => exact contains.of_context (by rw [context_enlist w s sink known])
  next =>
    -- a context starts without classes
    obtain ⟨key, found⟩ := contains
    have empty : ((w.enlist s sink).context c).classes = .empty := by
      unfold context enlist install
      rw [Pool.get_add]
      split
      next => rfl
      next => rw [show (w.provide s).contexts = w.contexts from rfl, Pool.get_of_not_has _ known]; rfl
    rw [empty] at found
    cases found

end World

theorem Change.contains {w w' : Recorded σ} (step : Change making w w') (owns : w.Owns k hook)
    (contains : w'.Contains c k) : w.Contains c k := by
  cases step with
  | surroundings | addClass | addMethod | shareClass | addFunction | shareFunction | addConstant
  | addModule | addObject | markFinalized | addScope | setDefaults | declareClass | declareFunction
  | declareConstant | note | setOwn => exact contains
  | popCall d => exact contains.of_popFrame
  | adjust d f adjusts =>
    refine World.Contains.of_update contains fun x key found => ?_
    rwa [show (f x).classes = x.classes from congrArg Context.Holdings.classes (adjusts x).holdings]
      at found
  | loadClass d j known _ hookless =>
    refine contains.of_insertClass fun _ same => ?_
    subst same
    exact nomatch hookless.symm.trans (owns known)
  | close d =>
    have shut : (w.shut d).Contains c k := contains
    exact shut.of_update fun _ _ found => found
  | cacheFunction d | insertFunction d | mergeFunctions d | cacheConstant d | insertConstant d
  | pushCall d | assign d | remember d | inherit d | reclaim d | drain d | track d =>
    exact World.Contains.of_update contains fun _ _ found => found

def Reentered (journal : List (Moment σ)) (hook : Callback) (c : ContextId) (k : ClassId) : Prop :=
  ∀ before m after, journal = before ++ m :: after → ¬ m.world.Contains c k →
    ∃ u ∈ after, u.Enters hook c

def AdmitsByHook (journal : List (Moment σ)) (hook : Callback) (c : ContextId) (k : ClassId) : Prop :=
  ∀ before m between m' after, journal = before ++ m :: (between ++ m' :: after) →
    ¬ m.world.Contains c k → m'.world.Contains c k → ∃ u ∈ between ++ [m'], u.Enters hook c

section

variable {journal : List (Moment σ)} {m : Moment σ}

theorem Reentered.concat (reentered : Reentered journal hook c k) (there : m.world.Contains c k) :
    Reentered (journal ++ [m]) hook c k := by
  intro before m' after same absent
  rcases split_concat same with ⟨-, rfl, -⟩ | ⟨rest, rfl, earlier⟩
  · exact absurd there absent
  · obtain ⟨u, member, enters⟩ := reentered before m' rest earlier absent
    exact ⟨u, List.mem_append_left _ member, enters⟩

theorem reentered_of_enters (enters : m.Enters hook c) (there : m.world.Contains c k) :
    Reentered (journal ++ [m]) hook c k := by
  intro before m' after same absent
  rcases split_concat same with ⟨-, rfl, -⟩ | ⟨rest, rfl, -⟩
  · exact absurd there absent
  · exact ⟨m, List.mem_append_right _ List.mem_cons_self, enters⟩

end

structure World.IsAdmitted (w : Recorded σ) (hook : Callback) (c : ContextId) (k : ClassId) :
    Prop where
  recorded : ∀ before m after, w.embedder.journal = before ++ m :: after → m.world.Contains c k →
    Reentered (before ++ [m]) hook c k
  now : w.Contains c k → Reentered w.embedder.journal hook c k

namespace World.IsAdmitted

variable {w w' : Recorded σ}

theorem start (files : FileTree) (own : σ) : (World.start files own).IsAdmitted hook c k where
  recorded _ _ _ same := nomatch (List.append_eq_nil_iff.1 same.symm).2
  now _ _ _ _ same := nomatch (List.append_eq_nil_iff.1 same.symm).2

theorem later (admitted : w.IsAdmitted hook c k)
    (journal : w'.embedder.journal = w.embedder.journal)
    (contains : w'.Contains c k → w.Contains c k) : w'.IsAdmitted hook c k where
  recorded := journal ▸ admitted.recorded
  now there := journal ▸ admitted.now (contains there)

theorem note (admitted : w.IsAdmitted hook c k) (event : Event) :
    (w.note event).IsAdmitted hook c k where
  recorded before m after same there := by
    rcases split_concat same with ⟨rfl, rfl, -⟩ | ⟨rest, -, earlier⟩
    · exact (admitted.now there).concat there
    · exact admitted.recorded before m rest earlier there
  now there := (admitted.now there).concat there

theorem enter (admitted : w.IsAdmitted hook c k) {u : Recorded σ}
    (journal : u.embedder.journal = w.embedder.journal) (there : u.Contains c k) :
    (u.note (.called (.enterClass hook c))).IsAdmitted hook c k where
  recorded before m after same contains := by
    rcases split_concat same with ⟨rfl, rfl, -⟩ | ⟨rest, -, earlier⟩
    · exact reentered_of_enters rfl there
    · exact admitted.recorded before m rest (journal.symm.trans earlier) contains
  now _ := reentered_of_enters rfl there

theorem leaveHook (admitted : w.IsAdmitted hook c k) (d : ContextId) (key : Bytes)
    (other : Callback) (outcome : Except Signal (Option Failure)) :
    (w.leaveHook d key other outcome).IsAdmitted hook c k := by
  have noted := admitted.note (.answered (.enterClass other d) outcome)
  unfold World.leaveHook
  split
  next =>
    refine noted.later rfl fun contains => contains.of_update fun x name found => ?_
    rw [Table.get?_erase] at found
    split at found
    next => cases found
    next => exact found
  next => exact noted

theorem admitsByHook (admitted : w.IsAdmitted hook c k) :
    AdmitsByHook w.embedder.journal hook c k := by
  intro before m between m' after journal absent there
  have reentered := admitted.recorded (before ++ m :: between) m' after (by simp [journal]) there
  exact reentered before m (between ++ [m']) (by simp) absent

end World.IsAdmitted

theorem Change.admitted {w w' : Recorded σ} (step : Change making w w') (owns : w.Owns k hook)
    (admitted : w.IsAdmitted hook c k) : w'.IsAdmitted hook c k := by
  have contains : w'.Contains c k → w.Contains c k := step.contains owns
  cases step with
  | note event => exact admitted.note event
  | popCall d => exact admitted.later (congrArg _ (w.popFrame_embedder d)) contains
  | _ => exact admitted.later rfl contains

theorem Course.admitted {w w' : Recorded σ} (course : Course making w w') (owns : w'.Owns k hook)
    (admitted : w.IsAdmitted hook c k) : w'.IsAdmitted hook c k := by
  induction course with
  | still => exact admitted
  | change step => exact step.admitted (owns.before step.extends) admitted
  | trans _ rest ih ih' => exact ih' owns (ih (owns.before rest.extends) admitted)
  | @operation _ w w' o outcome inner _ _ ih =>
    have ended : w'.IsAdmitted hook c k := ih owns (admitted.later rfl id)
    exact (World.IsAdmitted.later ended rfl id : World.IsAdmitted
      { w' with embedder := { w'.embedder with running := w.embedder.running } } hook c k).note _
  | @frame _ w w' d f _ _ ih =>
    have pushed : (w.pushFrame d f).IsAdmitted hook c k :=
      admitted.later rfl fun contains => contains.of_update fun _ _ found => found
    exact (ih (owns.before (w'.extends_popFrame d)) pushed).later (by rw [w'.popFrame_embedder])
      World.Contains.of_popFrame
  | @autoload _ w w' d key _ _ _ _ ih =>
    have entered : (w.updateLoaders d (·.enter key)).IsAdmitted hook c k :=
      admitted.later rfl fun contains => contains.of_update fun _ _ found => found
    exact (ih (owns.before (w'.extends_updateLoaders d _)) entered).later rfl
      fun contains => contains.of_update fun _ _ found => found
  | @destructor _ w v w' d o j f _ known _ retires inner calls ih =>
    have marked : (w.markFinalized o).IsAdmitted hook c k := admitted.later rfl id
    have owns' : v.Owns k hook := owns.before
      (((World.extends_pushFrame v d f).trans (World.extends_note _ _)).trans
        (inner.extends.trans (w'.extends_popFrame d)))
    have given : v.IsAdmitted hook c k := retires.elim known calls.acts marked
      (·.admitted (owns'.before retires.onward) marked)
    have pushed : (v.pushFrame d f).IsAdmitted hook c k :=
      given.later rfl fun contains => contains.of_update fun _ _ found => found
    exact (ih (owns.before (w'.extends_popFrame d)) (pushed.note _)).later
      (by rw [w'.popFrame_embedder]) World.Contains.of_popFrame
  | @hook _ w w' d j own there known _ ownedBy outcome inner _ _ ih =>
    have later := owns.before (w'.extends_leaveHook d (w.classes.get j).lowerName own outcome)
    refine (ih later ?_).leaveHook d _ own outcome
    -- the class comes in with its own hook, and any other class leaves it where it is
    by_cases here : d = c ∧ j = k
    next =>
      obtain ⟨rfl, rfl⟩ := here
      have whole := (w.extends_insertClass d j).trans
        ((World.extends_note _ (.called (.enterClass own d))).trans inner.extends)
      cases ownedBy.symm.trans ((later.before whole) known)
      exact admitted.enter rfl ⟨_, World.insertClass_resolves there j⟩
    next =>
      have inserted : (w.insertClass d j).IsAdmitted hook c k :=
        admitted.later rfl (World.Contains.of_insertClass fun same equal => here ⟨same, equal⟩)
      exact inserted.note _
  | @registration _ w w' d m _ _ _ _ ih =>
    exact (ih (owns.before (w'.extends_recordModule d m)) admitted).later rfl
      fun contains => contains.of_update fun _ _ found => found
  | @attempt _ w w' d _ _ _ ih =>
    exact (ih (owns.before (w'.extends_setImporting _ false)) (admitted.later rfl id)).later rfl id
  | @loading _ w u v w' d source _ _ _ _ event m _ after ended ih ih' =>
    have before := owns.before (ended.extends.trans (w'.extends_setImporting _ false))
    have called := ih ((before.before after.extends).before (u.extends_note event))
      (admitted.later rfl id)
    refine World.IsAdmitted.later (ih' before (called.note event)) (congrArg _ ended.embedder)
      fun contains => ?_
    unfold World.Contains World.context World.setImporting World.updateScope at contains
    rwa [ended.contexts] at contains
  | creation s sink _ _ _ ih =>
    exact ih owns (admitted.later rfl World.Contains.of_enlist)

/-- How a lookup hands out a class that has a hook: the class is in the context, or its hook has been
called. It is called at once, and nothing else is, if the scope shares the class and the context has
none of the name. -/
structure Run.BringsByHook (lookup : Run (Ledger σ) (Option ClassId)) (c : ContextId) (name : Bytes)
    (w : Recorded σ) : Prop where
  found : ∀ (k : ClassId) (hook : Callback) (w' : Recorded σ), lookup w = (.ok (some k), w') →
    (w'.classes.get k).onEnter = some hook → w'.Contains c k ∨ ∃ m ∈ w.since w', m.Enters hook c
  starts : ∀ (k : ClassId) (hook : Callback),
    (w.context c).classes.get? (withoutSeparator name).lower = none →
    (w.scopeOf c).classes.get? (withoutSeparator name).lower = some k →
    (w.classes.get k).isStatic → (w.classes.get k).onEnter = some hook →
    ∃ first last, w.direct (lookup w).2 = [first, last] ∧ first.Starts hook c k

namespace ClassRegistry

variable {h : Host (Ledger σ)} {w : Recorded σ} {name : Bytes}

theorem find_shared (h : Host (Ledger σ))
    (absent : (w.context c).classes.get? (withoutSeparator name).lower = none)
    (shared : (w.scopeOf c).classes.get? (withoutSeparator name).lower = some k)
    (isStatic : (w.classes.get k).isStatic) :
    find h c name w = (enter h c k >>= fun _ => pure (some k)) w := by
  rw [find, findLower_absent h absent, shared, Option.filter_some, if_pos isStatic, Option.elim_some]

variable (nests : h.Nests)
include nests

theorem find_bringsByHook (ready : w.Ready [c] (some c)) :
    (find h c name).BringsByHook c name w where
  found k hook w' found own := by
    have course := (find_follows nests.follows c name).course ready found
    unfold find at found
    -- the class has been there before, or it has entered in this search, and then its hook has been
    -- called
    obtain ⟨j, loaded, same⟩ | ⟨_, same⟩ | ⟨j, _, shared, _, same⟩ :=
      findLower_cases h c w (withoutSeparator name).lower
    · cases same.symm.trans found
      exact .inl ⟨_, loaded⟩
    · cases same.symm.trans found
    · obtain ⟨_, v, entered, last⟩ := of_bind_ok (same.symm.trans found)
      cases last
      have known := ((ready.sound.scopes _).classes _ k shared).1
      have before : w.Owns k hook := World.Owns.before (fun _ => own) course.extends
      obtain ⟨first, last, direct, starts⟩ := enter_starts nests ready known (before known)
      have called : first ∈ w.direct w' := by
        rw [entered] at direct
        exact direct.symm ▸ List.mem_cons_self
      exact .inr ⟨first, (List.mem_filter.1 called).1, starts.event⟩
  starts k hook absent shared isStatic own := by
    have known := ((ready.sound.scopes _).classes _ k shared).1
    obtain ⟨first, last, direct, starts⟩ := enter_starts nests ready known own
    refine ⟨first, last, ?_, starts⟩
    rw [find_shared h absent shared isStatic, bind_apply]
    rcases result : enter h c k w with ⟨signal | _, v⟩ <;> rwa [result] at direct

theorem fetch_bringsByHook (ready : w.Ready [c] (some c)) :
    (fetch h c name).BringsByHook c name w where
  found k hook w' found own := by
    obtain ⟨n, v, u, -, later, journal, finds, rest⟩ := fetch_searches nests.follows ready found
    have searched := (find_follows nests.follows c n).course later finds
    have whole := World.since_trans journal searched.journal
    have own' : (u.classes.get k).onEnter = some hook := by
      rcases rest with rfl | ⟨f, rfl⟩ <;> exact own
    have since : w.since w' = w.since u := by rcases rest with rfl | ⟨f, rfl⟩ <;> rfl
    rw [since, whole]
    rcases (find_bringsByHook nests later).found k hook u finds own' with contains | entered
    · left
      rcases rest with rfl | ⟨f, rfl⟩
      · exact contains
      · have kept : ((u.updateLoaders c f).context c).classes = (u.context c).classes :=
          u.contexts.modify_keeps c c _ Context.classes fun _ => rfl
        exact contains.of_context kept.symm
    · obtain ⟨m, member, enters⟩ := entered
      exact .inr ⟨m, List.mem_append_right _ member, enters⟩
  starts k hook absent shared isStatic own := by
    have same : (fetch h c name w).2 = (find h c name w).2 := by
      rw [fetch, bind_apply, find_shared h absent shared isStatic, bind_apply]
      rcases enter h c k w with ⟨signal | _, v⟩ <;> rfl
    rw [same]
    exact (find_bringsByHook nests ready).starts k hook absent shared isStatic own

end ClassRegistry

/-- What failed hooks come to, in every run and in every sound world, as all worlds in all runs are.
Whoever has asked for a class whose hook fails unwinds, and calls nothing more. If the hook has
returned its failure, the class is out of the context, and nothing but its hook brings it back: when it
is found or fetched, its hook has started again. -/
theorem Script.refused_class_left_out (s : Script σ) (depth : Nat) :
    (∀ (ρ : Type) (code : Code σ ρ) (files : FileTree) (own : σ),
      ((code.run (s.host depth) (.start files own)).2.Sound ∧
        ∀ m ∈ s.journal depth code files own, m.world.Sound) ∧
      ∀ hook c k, (code.run (s.host depth) (.start files own)).2.Owns k hook →
        AdmitsByHook (s.journal depth code files own) hook c k) ∧
    ∀ (w : Recorded σ) (c : ContextId), w.Sound →
      (∀ (a : Action) (outcome : Except Signal a.Result) (w' : Recorded σ), a.loadsClasses →
        (Operation.act c a).request (s.host depth) (w.begin (.act c a)) = (outcome, w') →
        (w.begin (.act c a)).Meets c outcome w') ∧
      (w.contexts.has c → ∀ name, (ClassRegistry.find (s.host depth) c name).BringsByHook c name w ∧
        (ClassRegistry.fetch (s.host depth) c name).BringsByHook c name w) := by
  have nests := s.host_nests depth
  constructor
  · intro ρ code files own
    have course := s.course depth code files own
    refine ⟨⟨course.sound (World.start_sound files own),
      fun m member => (Script.regular_of_journal member).sound⟩, fun hook c k owns => ?_⟩
    exact (course.admitted owns (.start files own)).admitsByHook
  · intro w c sound
    refine ⟨fun a outcome w' loads asked => Operation.request_meets nests sound loads asked,
      fun known name => ?_⟩
    have ready := sound.readyFor known
    exact ⟨ClassRegistry.find_bringsByHook nests ready, ClassRegistry.fetch_bringsByHook nests ready⟩

def beforeRefusal : Recorded Bool :=
  ((Code.each () (oneContext ++ [newHookedClass "b" ⟨0⟩]) : Code Bool Unit).run (hesitant.host 1)
    (.start (FileTree.make "/") false)).2

def afterRefusal : Recorded Bool :=
  ((Code.each () (oneContext ++ [newHookedClass "b" ⟨0⟩, .act ⟨0⟩ (.registerClass ⟨0⟩)]) :
    Code Bool Unit).run (hesitant.host 1) (.start (FileTree.make "/") false)).2

theorem refused_class_left_out_retried :
    (∃ before m between m' after, retried = before ++ m :: (between ++ m' :: after) ∧
      ¬ m.world.Contains ⟨0⟩ ⟨0⟩ ∧ m'.world.Contains ⟨0⟩ ⟨0⟩ ∧
      ∃ u ∈ between ++ [m'], u.Enters ⟨0⟩ ⟨0⟩) ∧
    (∃ signal w', (Operation.act ⟨0⟩ (.registerClass ⟨0⟩)).request (hesitant.host 1)
        (beforeRefusal.begin (.act ⟨0⟩ (.registerClass ⟨0⟩))) = (.error signal, w') ∧
      (beforeRefusal.begin (.act ⟨0⟩ (.registerClass ⟨0⟩))).Meets ⟨0⟩
        (.error signal : Except Signal Unit) w') ∧
    ∃ first last, afterRefusal.direct (ClassRegistry.fetch (hesitant.host 1) ⟨0⟩ "b" afterRefusal).2 =
      [first, last] ∧ first.Starts ⟨0⟩ ⟨0⟩ ⟨0⟩ := by
  obtain ⟨runs, worlds⟩ := Script.refused_class_left_out hesitant 1
  refine ⟨?_, ?_, ?_⟩
  · obtain ⟨m, absent, journal⟩ := split_at
      (show retried[7]?.any fun m => ¬ m.world.Contains ⟨0⟩ ⟨0⟩ by decide +kernel)
    obtain ⟨m', there, later⟩ := split_at
      (show (retried.drop 8)[2]?.any fun m => m.world.Contains ⟨0⟩ ⟨0⟩ by decide +kernel)
    rw [later] at journal
    have absent := of_decide_eq_true absent
    have there := of_decide_eq_true there
    exact ⟨_, m, _, m', _, journal, absent, there, (runs Unit retrial (FileTree.make "/") false).2 _ _ _
      (fun _ => by decide +kernel) _ m _ m' _ journal absent there⟩
  · have sound := (runs Unit (.each () (oneContext ++ [newHookedClass "b" ⟨0⟩]))
      (FileTree.make "/") false).1.1
    have unwinds : ((Operation.act ⟨0⟩ (.registerClass ⟨0⟩)).request (hesitant.host 1)
        (beforeRefusal.begin (.act ⟨0⟩ (.registerClass ⟨0⟩)))).1.isOk = false := by decide +kernel
    rcases asked : (Operation.act ⟨0⟩ (.registerClass ⟨0⟩)).request (hesitant.host 1)
      (beforeRefusal.begin (.act ⟨0⟩ (.registerClass ⟨0⟩))) with ⟨signal | _, w'⟩
    · exact ⟨signal, w', rfl, (worlds beforeRefusal ⟨0⟩ sound).1 _ _ w' rfl asked⟩
    · rw [asked] at unwinds
      cases unwinds
  · have sound := (runs Unit (.each () (oneContext ++ [newHookedClass "b" ⟨0⟩,
      .act ⟨0⟩ (.registerClass ⟨0⟩)])) (FileTree.make "/") false).1.1
    have known : afterRefusal.contexts.has ⟨0⟩ := by decide +kernel
    have absent : (afterRefusal.context ⟨0⟩).classes.get? (withoutSeparator "b").lower = none := by
      decide +kernel
    have shared : (afterRefusal.scopeOf ⟨0⟩).classes.get? (withoutSeparator "b").lower = some ⟨0⟩ := by
      decide +kernel
    have isStatic : (afterRefusal.classes.get ⟨0⟩).isStatic := by decide +kernel
    have own : (afterRefusal.classes.get ⟨0⟩).onEnter = some ⟨0⟩ := by decide +kernel
    exact ((worlds afterRefusal ⟨0⟩ sound).2 known "b").2.starts ⟨0⟩ ⟨0⟩ absent shared isStatic own

def startled : Script Unit where
  patience := 1
  code
    | .enterClass .. => .done (.error (.failure (.plain "x")))
    | _ => .done (.error .exhausted)

def startling : List (Moment Unit) :=
  startled.journal 1
    (.each () (oneContext ++ [newHookedClass "foo" ⟨0⟩, .declareClass ⟨0⟩ ⟨0⟩,
      .act ⟨0⟩ (.fetchClass "foo"), .act ⟨0⟩ (.fetchClass "foo")]))
    (FileTree.make "/") ()

def Event.isUnwoundFetch (c : ContextId) (name : Bytes) : Event → Bool
  | .finished (.act c' (.fetchClass name')) (.error _) => c' = c ∧ name' = name
  | _ => false

def Event.isUnwoundHook (hook : Callback) (c : ContextId) : Event → Bool
  | .answered (.enterClass hook' c') (.error _) => hook' = hook ∧ c' = c
  | _ => false

theorem unwound_class_handed_out :
    ∃ hook failed fetched, startling.drop 7 = [hook, failed, fetched] ∧
      hook.event.isUnwoundHook ⟨0⟩ ⟨0⟩ ∧ failed.event.isUnwoundFetch ⟨0⟩ "foo" ∧
      (failed.world.classes.get ⟨0⟩).onEnter = some ⟨0⟩ ∧
      (ClassRegistry.isLoaded ⟨0⟩ "foo" failed.world).1.toOption = some true ∧
      fetched.event = .finished (.act ⟨0⟩ (.fetchClass "foo")) (.ok (some ⟨0⟩)) := by
  have three : (startling.drop 7).length = 3 := by decide +kernel
  have unwinds : (startling.drop 7)[0]?.any (·.event.isUnwoundHook ⟨0⟩ ⟨0⟩) := by decide +kernel
  have fails : (startling.drop 7)[1]?.any fun m => m.event.isUnwoundFetch ⟨0⟩ "foo" ∧
      (m.world.classes.get ⟨0⟩).onEnter = some ⟨0⟩ ∧
      (ClassRegistry.isLoaded ⟨0⟩ "foo" m.world).1.toOption = some true := by decide +kernel
  have returns : (startling.drop 7)[2]?.any (·.event.isFetch ⟨0⟩ "foo" (some ⟨0⟩)) := by
    decide +kernel
  obtain ⟨hook, failed, fetched, last⟩ := List.length_eq_three.1 three
  rw [last] at unwinds fails returns
  obtain ⟨failed_unwound, own, loaded⟩ := of_decide_eq_true fails
  exact ⟨hook, failed, fetched, last, unwinds, failed_unwound, own, loaded,
    Event.eq_of_isFetch returns⟩

end ScriptHost
