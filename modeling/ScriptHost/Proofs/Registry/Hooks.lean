import Mathlib
import ScriptHost.Proofs.Registry.Stability

set_option autoImplicit false

namespace ScriptHost

variable {σ : Type} {making : List ContextId} {hook : Callback} {c : ContextId} {lower : Bytes}

namespace Moment

def Enters (m : Moment σ) (hook : Callback) (c : ContextId) : Prop :=
  m.event = .called (.enterClass hook c)

def IsTakeover (m : Moment σ) : Prop :=
  ∃ parent options, m.running.head? = some (.newChild parent options)

def Undoes (m : Moment σ) (hook : Callback) (c : ContextId) : Prop :=
  ∃ other f, m.event = .answered (.enterClass other c) (.ok (some f)) ∧
    (other = hook ∨ m.IsTakeover)

end Moment

section

variable {journal new : List (Moment σ)} {m : Moment σ}

def Undone (journal : List (Moment σ)) (hook : Callback) (c : ContextId) : Prop :=
  ∀ before m after, journal = before ++ m :: after → m.Enters hook c →
    ∃ u ∈ after, u.Undoes hook c

def RunsOnce (journal : List (Moment σ)) (hook : Callback) (c : ContextId) : Prop :=
  ∀ before m between m' after, journal = before ++ m :: (between ++ m' :: after) →
    m.Enters hook c → m'.Enters hook c → m'.IsTakeover ∨ ∃ u ∈ between, u.Undoes hook c

theorem Undone.concat (undone : Undone journal hook c) (other : ¬ m.Enters hook c) :
    Undone (journal ++ [m]) hook c := by
  intro before m' after same enters
  rcases split_concat same with ⟨-, rfl, -⟩ | ⟨rest, rfl, earlier⟩
  · exact absurd enters other
  · obtain ⟨u, member, undoes⟩ := undone before m' rest earlier enters
    exact ⟨u, List.mem_append_left _ member, undoes⟩

theorem Undone.append (undone : Undone journal hook c) (others : ∀ m ∈ new, ¬ m.Enters hook c) :
    Undone (journal ++ new) hook c := by
  induction new generalizing journal with
  | nil => simpa using undone
  | cons m rest ih =>
    obtain ⟨here, later⟩ := List.forall_mem_cons.1 others
    simpa using ih (undone.concat here) later

theorem undone_of_last (undoes : m.Undoes hook c) : Undone (journal ++ [m]) hook c := by
  intro before m' after same enters
  rcases split_concat same with ⟨-, rfl, -⟩ | ⟨rest, rfl, -⟩
  · obtain ⟨_, _, answered, -⟩ := undoes
    exact nomatch enters.symm.trans answered
  · exact ⟨m, List.mem_append_right _ List.mem_cons_self, undoes⟩

theorem RunsOnce.concat (once : RunsOnce journal hook c)
    (last : m.Enters hook c → m.IsTakeover ∨ Undone journal hook c) :
    RunsOnce (journal ++ [m]) hook c := by
  intro before m₁ between m₂ after same first second
  rw [← List.cons_append, ← List.append_assoc] at same
  rcases split_concat same with ⟨rfl, rfl, rfl⟩ | ⟨rest, rfl, earlier⟩
  · exact (last second).imp_right fun undone => undone before m₁ between rfl first
  · exact once before m₁ between m₂ rest (by simpa using earlier) first second

end

namespace World

variable {τ : Type} {w : World τ}

def Holds (w : World τ) (c : ContextId) (lower : Bytes) : Prop :=
  ((w.context c).classes.get? lower).isSome

theorem Holds.has (holds : w.Holds c lower) : w.contexts.has c := by
  by_cases known : w.contexts.has c
  next => exact known
  next =>
    rw [Holds, context, Pool.get_of_not_has _ known] at holds
    cases holds

theorem Holds.update (holds : w.Holds c lower) (d : ContextId) (f : Context → Context)
    (keeps : d = c → ((w.context c).classes.get? lower).isSome →
      ((f (w.context c)).classes.get? lower).isSome) : (w.updateContext d f).Holds c lower := by
  unfold Holds
  rw [context_updateContext]
  split
  next same => exact keeps same.1 holds
  next => exact holds

theorem Holds.insertClass (holds : w.Holds c lower) (d : ContextId) (k : ClassId) :
    (w.insertClass d k).Holds c lower := by
  refine holds.update d _ fun _ there => ?_
  rw [Table.get?_insert]
  split
  next => rfl
  next => exact there

theorem holds_insertClass (there : w.contexts.has c) (k : ClassId) :
    (w.insertClass c k).Holds c (w.classes.get k).lowerName :=
  Option.isSome_iff_exists.2 ⟨k, insertClass_resolves there k⟩

theorem Holds.popFrame (holds : w.Holds c lower) (d : ContextId) : (w.popFrame d).Holds c lower := by
  unfold World.popFrame
  split
  next => exact holds
  next => exact holds.update d _ fun _ there => there

end World

theorem Change.holds {w w' : Recorded σ} (step : Change making w w') (holds : w.Holds c lower) :
    w'.Holds c lower := by
  cases step with
  | surroundings | addClass | addMethod | shareClass | addFunction | shareFunction | addConstant
  | addModule | addObject | markFinalized | addScope | setDefaults | declareClass | declareFunction
  | declareConstant | note | setOwn => exact holds
  | popCall d => exact holds.popFrame d
  | adjust d f adjusts =>
    refine holds.update d f fun _ there => ?_
    rwa [show (f (w.context c)).classes = (w.context c).classes from
      congrArg Context.Holdings.classes (adjusts _).holdings]
  | loadClass d k => exact holds.insertClass d k
  | close d => exact holds.update d (fun x => { x with isClosed := true }) fun _ there => there
  | cacheFunction d | insertFunction d | mergeFunctions d | cacheConstant d | insertConstant d
  | pushCall d | assign d | remember d | inherit d | reclaim d | drain d | track d =>
    exact holds.update d _ fun _ there => there

def World.Names {τ : Type} (w : World τ) (hook : Callback) (lower : Bytes) : Prop :=
  ∀ k, w.classes.has k → (w.classes.get k).onEnter = some hook →
    (w.classes.get k).lowerName = lower

theorem World.Names.before {τ : Type} {w w' : World τ} (named : w'.Names hook lower)
    (later : w.Extends w') : w.Names hook lower := by
  intro k known own
  obtain ⟨there, name, same⟩ := later.classes k known
  rw [← named k there (same.trans own), Class.lowerName, Class.lowerName, name]

theorem World.Entrance.not_enters {w : Recorded σ} {d : ContextId} {k k' : ClassId} {own : Callback}
    (entrance : w.Entrance making d k') (sound : w.Sound) (finished : c ∉ making)
    (plain : lower.head? ≠ some 0x5c) (named : w.Names hook lower) (isKnown : w.classes.has k')
    (owns : (w.classes.get k').onEnter = some own) (holds : w.Resolves c (.ofClass lower k)) :
    ¬ Moment.Enters ⟨.called (.enterClass own d), w.embedder.running,
      (w.insertClass d k').unrecorded⟩ hook c := by
  rintro ⟨⟩
  have same := named k' isKnown owns
  exact nomatch (same ▸ entrance.absent sound finished (same ▸ plain)).symm.trans holds

theorem Course.silent {w w' : Recorded σ} (course : Course making w w') (sound : w.Sound)
    (known : w.contexts.has c) (finished : c ∉ making) (plain : lower.head? ≠ some 0x5c)
    (named : w'.Names hook lower) {k : ClassId} (holds : w.Resolves c (.ofClass lower k)) :
    w.Adds (¬ ·.Enters hook c) w' := by
  induction course with
  | still => exact .of_same rfl
  | change step =>
    cases step with
    | note event isPlain =>
      refine .note _ ?_
      rintro rfl
      cases isPlain
    | popCall d => exact .of_same (congrArg _ (World.popFrame_embedder _ d))
    | _ => exact .of_same rfl
  | trans first rest ih ih' =>
    have before := ih sound known finished (named.before rest.extends) holds
    have kept := first.keeps sound known finished (r := .ofClass lower k) plain holds
    exact before.trans
      (ih' (first.sound sound) (first.extends.contexts c known).1 finished named kept)
  | @operation _ w w' o outcome inner delivers _ ih =>
    exact (ih (sound.begin o) known List.not_mem_nil named holds).trans (.note _ nofun)
  | @frame _ w w' d f inner calls ih =>
    have within := ih (sound.pushFrame d calls.known)
      ((w.extends_pushFrame d f).contexts c known).1 finished
      (named.before (w'.extends_popFrame d)) (holds.pushFrame d f)
    exact World.Adds.popFrame within d
  | @autoload _ w w' d key _ _ _ _ ih =>
    exact ih (sound.updateLoaders d _)
      ((w.extends_updateLoaders d (·.enter key)).contexts c known).1 finished
      (named.before (w'.extends_updateLoaders d _)) (holds.updateLoaders d _)
  | @destructor _ w v w' d o k' f _ there _ retires inner calls ih =>
    have given : v.Resolves c (.ofClass lower k) :=
      retires.elim (P := (·.Resolves c (.ofClass lower k))) there calls.acts holds
        fun step => step.keeps (sound.markFinalized o) finished plain holds
    have onward := retires.extends.trans (World.extends_pushFrame v d f)
    have within := ih ((sound.destroying retires calls.known).note _)
      (onward.contexts c known).1 finished
      (named.before (w'.extends_popFrame d)) (given.pushFrame d f)
    have called : World.Adds (¬ ·.Enters hook c) w w' := by
      refine .of_event (v := v.pushFrame d f) retires.embedder ?_ within
      nofun
    exact called.popFrame d
  | @hook _ w w' d k' k'' _ isKnown entrance own outcome inner _ _ ih =>
    have later := w'.extends_leaveHook d (w.classes.get k').lowerName k'' outcome
    have whole := (w.extends_insertClass d k').trans
      ((World.extends_note _ (.called (.enterClass k'' d))).trans (inner.extends.trans later))
    have other := entrance.not_enters sound finished plain (named.before whole) isKnown own holds
    have inserted := holds.insertClass d k'
      (entrance.apart sound (fun _ _ _ => finished) (r := .ofClass lower k) plain holds)
    have within := ih ((sound.insertClass d k' isKnown).note _)
      ((w.extends_insertClass d k').contexts c known).1 List.not_mem_nil (named.before later)
      inserted
    have called : World.Adds (¬ ·.Enters hook c) w w' :=
      .of_event (v := w.insertClass d k') rfl other within
    exact called.leaveHook nofun
  | @registration _ w w' d m _ _ inner _ ih =>
    exact (ih sound known finished (named.before (w'.extends_recordModule d m)) holds).trans
      (.of_same rfl)
  | @attempt _ w w' d _ _ inner ih =>
    exact (ih (sound.setImporting _ true) known finished
      (named.before (w'.extends_setImporting _ false)) holds).trans (.of_same rfl)
  | @loading _ w u v w' d source _ _ _ inner event m loaded rest ended ih ih' =>
    have sound := sound.setImporting (w.context d).scope true
    have before := named.before (ended.extends.trans (w'.extends_setImporting _ false))
    have kept := inner.keeps sound known finished (r := .ofClass lower k) plain holds
    have called := ih sound known finished ((before.before rest.extends).before
      (u.extends_note event)) holds
    -- what is on record here is the answer of a compiler
    have answered : World.Adds (¬ ·.Enters hook c) u (u.note event) := .note u fun enters => by
      rw [show event = .called (.enterClass hook c) from enters] at loaded
      cases loaded
    have stored := ih' ((inner.sound sound).note event) (inner.extends.contexts c known).1 finished
      before kept
    exact called.trans (answered.trans (stored.trans (.of_same (congrArg _ ended.embedder))))
  | @creation w w' s sink housed _ inner ih =>
    have unfinished : c ∉ [w.contexts.next] :=
      mt List.mem_singleton.1 (Pool.ne_next_of_has _ known)
    refine ih (sound.enlist housed sink) ((w.extends_enlist s sink).contexts c known).1 unfinished
      named ?_
    unfold World.Resolves
    rwa [World.context_enlist w s sink known]

structure World.IsGuarded (w : Recorded σ) (hook : Callback) (c : ContextId) (lower : Bytes) :
    Prop where
  once : RunsOnce w.embedder.journal hook c
  held : w.Holds c lower ∨ Undone w.embedder.journal hook c

namespace World.IsGuarded

variable {w w' : Recorded σ}

theorem start (files : FileTree) (own : σ) : (World.start files own).IsGuarded hook c lower where
  once _ _ _ _ _ same := nomatch (List.append_eq_nil_iff.1 same.symm).2
  held := .inr fun _ _ _ same => nomatch (List.append_eq_nil_iff.1 same.symm).2

theorem later (guarded : w.IsGuarded hook c lower)
    (journal : w'.embedder.journal = w.embedder.journal)
    (holds : w.Holds c lower → w'.Holds c lower) : w'.IsGuarded hook c lower := by
  refine ⟨?_, guarded.held.imp holds ?_⟩ <;> rw [journal]
  · exact guarded.once
  · exact id

theorem note (guarded : w.IsGuarded hook c lower) {event : Event}
    (other : event ≠ .called (.enterClass hook c)) : (w.note event).IsGuarded hook c lower where
  once := guarded.once.concat fun enters => absurd enters other
  held := guarded.held.imp id fun undone => undone.concat other

theorem leaveHook (guarded : w.IsGuarded hook c lower) (d : ContextId) (key : Bytes)
    (other : Callback) (outcome : Except Signal (Option Failure))
    (undone : d = c → key = lower → ∀ f, outcome = .ok (some f) →
      Undone (w.note (.answered (.enterClass other d) outcome)).embedder.journal hook c) :
    (w.leaveHook d key other outcome).IsGuarded hook c lower := by
  have noted : (w.note (.answered (.enterClass other d) outcome)).IsGuarded hook c lower :=
    guarded.note nofun
  unfold World.leaveHook
  split
  next f =>
    refine ⟨noted.once, ?_⟩
    by_cases here : d = c ∧ key = lower
    next => exact .inr (undone here.1 here.2 f rfl)
    next =>
      refine noted.held.imp (fun holds => ?_) id
      refine holds.update d _ fun same there => ?_
      have apart : lower ≠ key := fun equal => here ⟨same, equal.symm⟩
      rwa [Table.get?_erase, if_neg apart]
  next => exact noted

end World.IsGuarded

theorem Change.guarded {w w' : Recorded σ} (step : Change making w w')
    (guarded : w.IsGuarded hook c lower) : w'.IsGuarded hook c lower := by
  have holds : w.Holds c lower → w'.Holds c lower := step.holds
  cases step with
  | note event isPlain =>
    refine guarded.note ?_
    rintro rfl
    cases isPlain
  | popCall d => exact guarded.later (congrArg _ (w.popFrame_embedder d)) holds
  | _ => exact guarded.later rfl holds

theorem World.IsGuarded.enter {w w' : Recorded σ} (guarded : w.IsGuarded hook c lower)
    (sound : w.Sound) (plain : lower.head? ≠ some 0x5c) {k : ClassId} {own : Callback}
    (there : w.contexts.has c) (known : w.classes.has k) (entrance : w.Entrance making c k)
    (name : (w.classes.get k).lowerName = lower) (outcome : Except Signal (Option Failure))
    (inner : Course [] ((w.insertClass c k).note (.called (.enterClass own c))) w')
    (named : w'.Names hook lower)
    (within : ((w.insertClass c k).note (.called (.enterClass own c))).IsGuarded hook c lower →
      w'.IsGuarded hook c lower) :
    (w'.leaveHook c lower own outcome).IsGuarded hook c lower := by
  let call : Moment σ :=
    ⟨.called (.enterClass own c), w.embedder.running, (w.insertClass c k).unrecorded⟩
  have free : call.IsTakeover ∨ Undone w.embedder.journal hook c := by
    by_cases takeover : call.IsTakeover
    next => exact .inl takeover
    next =>
      have absent := entrance.free sound
        (fun parent options running => absurd ⟨parent, options, running⟩ takeover) (name ▸ plain)
      refine .inr (guarded.held.resolve_left fun holds => ?_)
      rw [World.Holds, ← name, absent] at holds
      cases holds
  have inserted : (w.insertClass c k).Holds c lower := name ▸ w.holds_insertClass there k
  have ended := within ⟨guarded.once.concat fun _ => free, .inl inserted⟩
  refine ended.leaveHook c lower own outcome ?_
  rintro - - f rfl
  have running : w'.embedder.running = w.embedder.running := inner.running
  -- the failure undoes this entrance; if it is one of another class, the class itself has not entered
  -- meanwhile
  by_cases last : own = hook ∨ call.IsTakeover
  next => exact undone_of_last ⟨own, f, rfl, by simpa [Moment.IsTakeover, running] using last⟩
  next =>
    rw [not_or] at last
    have other : ¬ call.Enters hook c := by
      rintro ⟨⟩
      exact last.1 rfl
    have resolves : (w.insertClass c k).Resolves c (.ofClass lower k) :=
      name ▸ World.insertClass_resolves there k
    obtain ⟨new, journal, silent⟩ := inner.silent ((sound.insertClass c k known).note _)
      ((w.extends_insertClass c k).contexts c there).1 List.not_mem_nil plain named resolves
    have undone := ((free.resolve_left last.2).concat other).append silent
    rw [show w.embedder.journal ++ [call] ++ new = w'.embedder.journal from journal.symm] at undone
    exact undone.concat (by rintro ⟨⟩)

theorem Course.guarded {w w' : Recorded σ} (course : Course making w w') (sound : w.Sound)
    (plain : lower.head? ≠ some 0x5c) (named : w'.Names hook lower)
    (guarded : w.IsGuarded hook c lower) : w'.IsGuarded hook c lower := by
  -- only the entering of a class of this name counts, and `IsGuarded.enter` is that case
  induction course with
  | still => exact guarded
  | change step => exact step.guarded guarded
  | trans first rest ih ih' =>
    exact ih' (first.sound sound) named (ih sound (named.before rest.extends) guarded)
  | @operation _ w w' o outcome inner delivers _ ih =>
    have begun : (w.begin o).IsGuarded hook c lower := guarded.later rfl id
    exact ((ih (sound.begin o) named begun).later rfl id :
      World.IsGuarded { w' with embedder := { w'.embedder with running := w.embedder.running } }
        hook c lower).note nofun
  | @frame _ w w' d f inner calls ih =>
    have pushed : (w.pushFrame d f).IsGuarded hook c lower :=
      guarded.later rfl fun holds => holds.update d _ fun _ there => there
    exact (ih (sound.pushFrame d calls.known) (named.before (w'.extends_popFrame d)) pushed).later
      (by rw [w'.popFrame_embedder]) fun holds => holds.popFrame d
  | @autoload _ w w' d key _ _ _ _ ih =>
    have entered : (w.updateLoaders d (·.enter key)).IsGuarded hook c lower :=
      guarded.later rfl fun holds => holds.update d _ fun _ there => there
    exact (ih (sound.updateLoaders d _) (named.before (w'.extends_updateLoaders d _)) entered).later
      rfl fun holds => holds.update d _ fun _ there => there
  | @destructor _ w v w' d o k f _ known _ retires inner calls ih =>
    have marked : (w.markFinalized o).IsGuarded hook c lower := guarded.later rfl id
    have given : v.IsGuarded hook c lower :=
      retires.elim known calls.acts marked (·.guarded marked)
    have pushed : (v.pushFrame d f).IsGuarded hook c lower :=
      given.later rfl fun holds => holds.update d _ fun _ there => there
    exact (ih ((sound.destroying retires calls.known).note _)
      (named.before (w'.extends_popFrame d)) (pushed.note nofun)).later
      (by rw [w'.popFrame_embedder]) fun holds => holds.popFrame d
  | @hook _ w w' d k k' there known entrance own outcome inner _ _ ih =>
    have later := named.before (w'.extends_leaveHook d (w.classes.get k).lowerName k' outcome)
    have inserted := (sound.insertClass d k known).note (.called (.enterClass k' d))
    by_cases here : d = c ∧ (w.classes.get k).lowerName = lower
    next =>
      obtain ⟨rfl, name⟩ := here
      rw [name]
      exact guarded.enter sound plain there known entrance name outcome inner later
        (ih inserted later)
    next =>
      have whole := (w.extends_insertClass d k).trans
        ((World.extends_note _ (.called (.enterClass k' d))).trans inner.extends)
      have other : Event.called (.enterClass k' d) ≠ .called (.enterClass hook c) := by
        rintro ⟨⟩
        exact here ⟨rfl, later.before whole k known own⟩
      have entered : (w.insertClass d k).IsGuarded hook c lower :=
        guarded.later rfl fun holds => holds.insertClass d k
      exact (ih inserted later (entered.note other)).leaveHook d _ k' outcome
        fun same name => absurd ⟨same, name⟩ here
  | @registration _ w w' d m _ _ inner _ ih =>
    exact (ih sound (named.before (w'.extends_recordModule d m)) guarded).later rfl
      fun holds => holds.update d _ fun _ there => there
  | @attempt _ w w' d _ _ inner ih =>
    exact (ih (sound.setImporting _ true) (named.before (w'.extends_setImporting _ false))
      (guarded.later rfl id)).later rfl id
  | @loading _ w u v w' d source _ _ _ inner event m loaded rest ended ih ih' =>
    have sound := sound.setImporting (w.context d).scope true
    have before := named.before (ended.extends.trans (w'.extends_setImporting _ false))
    have answered : (u.note event).IsGuarded hook c lower :=
      (ih sound ((before.before rest.extends).before (u.extends_note event))
        (guarded.later rfl id)).note fun same => by rw [same] at loaded; cases loaded
    have kept := ih' ((inner.sound sound).note event) before answered
    refine World.IsGuarded.later kept (congrArg _ ended.embedder) fun holds => ?_
    rwa [World.Holds, World.context, World.setImporting, World.updateScope, ended.contexts]
  | @creation w w' s sink housed _ inner ih =>
    refine ih (sound.enlist housed sink) named (guarded.later rfl fun holds => ?_)
    unfold World.Holds
    rwa [World.context_enlist w s sink holds.has]

/-- A hook that runs in a context where it has run before does so after a failure, or for a child
that takes over the classes of its parent. All classes that have the hook have one name, without a
separator in front. -/
theorem Script.hook_runs_once {ρ : Type} (s : Script σ) (depth : Nat) (code : Code σ ρ)
    (files : FileTree) (own : σ) {hook : Callback} {c : ContextId} {lower : Bytes}
    (plain : lower.head? ≠ some 0x5c)
    (named : World.Names (code.run (s.host depth) (.start files own)).2 hook lower)
    {before between after : List (Moment σ)} {first again : Moment σ}
    (journal : s.journal depth code files own =
      before ++ first :: (between ++ again :: after))
    (enters : first.Enters hook c) (entersAgain : again.Enters hook c) :
    again.IsTakeover ∨ ∃ u ∈ between, u.Undoes hook c :=
  ((s.course depth code files own).guarded (World.start_sound files own) plain named
    (.start files own)).once before first between again after journal enters entersAgain

def Event.isEnter (hook : Callback) (c : ContextId) : Event → Bool
  | .called (.enterClass hook' c') => hook' = hook ∧ c' = c
  | _ => false

theorem Moment.enters_of_isEnter {m : Moment σ} (isEnter : m.event.isEnter hook c) :
    m.Enters hook c := by
  unfold Event.isEnter at isEnter
  split at isEnter
  next same =>
    obtain ⟨rfl, rfl⟩ := of_decide_eq_true isEnter
    exact same
  next => cases isEnter

theorem World.names_of_entries {τ : Type} {w : World τ}
    (each : ∀ e ∈ w.classes.entries, e.onEnter = some hook → e.lowerName = lower) :
    w.Names hook lower := fun k _ =>
  Pool.get_of_all (P := fun e : Class => e.onEnter = some hook → e.lowerName = lower) each
    (fun own => nomatch (own : none = some hook)) k

def newHookedClass (name : Bytes) (hook : Callback) : Operation :=
  .newClass ⟨name, none, true, default, none, .empty, some hook, none⟩

def hesitant : Script Bool where
  patience := 1
  code
    | .enterClass .. => .look fun w =>
      if w.embedder then .done (.ok none) else .setOwn true (.done (.ok (some .fault)))
    | _ => .done (.error .exhausted)

def retrial : Code Bool Unit :=
  .each () (oneContext ++ [newHookedClass "b" ⟨0⟩, .act ⟨0⟩ (.registerClass ⟨0⟩),
    .act ⟨0⟩ (.registerClass ⟨0⟩)])

def retried : List (Moment Bool) := hesitant.journal 1 retrial (FileTree.make "/") false

theorem hook_runs_once_retried :
    World.Names (retrial.run (hesitant.host 1) (.start (FileTree.make "/") false)).2 ⟨0⟩ "b" ∧
    ∃ before first between again after,
      retried = before ++ first :: (between ++ again :: after) ∧ first.Enters ⟨0⟩ ⟨0⟩ ∧
      again.Enters ⟨0⟩ ⟨0⟩ ∧ (again.IsTakeover ∨ ∃ u ∈ between, u.Undoes ⟨0⟩ ⟨0⟩) := by
  have named : World.Names (retrial.run (hesitant.host 1) (.start (FileTree.make "/") false)).2
      ⟨0⟩ "b" := World.names_of_entries (by decide +kernel)
  obtain ⟨first, enters, journal⟩ := split_at
    (show retried[5]?.any (·.event.isEnter ⟨0⟩ ⟨0⟩) by decide +kernel)
  obtain ⟨again, entersAgain, later⟩ := split_at
    (show (retried.drop 6)[2]?.any (·.event.isEnter ⟨0⟩ ⟨0⟩) by decide +kernel)
  rw [later] at journal
  exact ⟨named, _, first, _, again, _, journal, Moment.enters_of_isEnter enters,
    Moment.enters_of_isEnter entersAgain, Script.hook_runs_once hesitant 1 retrial _ _ (by decide)
      named journal (Moment.enters_of_isEnter enters) (Moment.enters_of_isEnter entersAgain)⟩

def fetching : Script Unit where
  patience := 1
  code
    | .enterClass ⟨0⟩ c => .each none [.act c (.fetchClass "b")]
    | .enterClass .. => .done (.ok none)
    | _ => .done (.error .exhausted)

def takeover : List (Moment Unit) :=
  fetching.journal 2
    (.each () (oneContext ++ [newHookedClass "b" ⟨1⟩, .declareClass ⟨0⟩ ⟨0⟩,
      newHookedClass "a" ⟨0⟩, .act ⟨0⟩ (.registerClass ⟨1⟩), .newChild ⟨0⟩ {}]))
    (FileTree.make "/") ()

-- Classes are sorted by a recursion that only its equations open, so these runs are evaluated by them.
set_option maxRecDepth 20000 in
theorem hook_repeated_for_child :
    (∀ m ∈ takeover, m.event.isRefusal = false ∧ m.world.HasPlainNames) ∧
    ∃ before first between again after,
      takeover = before ++ first :: (between ++ again :: after) ∧ first.Enters ⟨1⟩ ⟨1⟩ ∧
      again.Enters ⟨1⟩ ⟨1⟩ ∧
      again.world.classes.entries.toList.map (·.onEnter) = [some ⟨1⟩, some ⟨0⟩] := by
  have orderly : takeover.all fun m => m.event.isRefusal = false ∧ m.world.HasPlainNames := by cbv
  obtain ⟨first, enters, journal⟩ := split_at
    (show takeover[14]?.any (·.event.isEnter ⟨1⟩ ⟨1⟩) by cbv)
  obtain ⟨again, repeats, later⟩ := split_at
    (show (takeover.drop 15)[3]?.any (fun m => m.event.isEnter ⟨1⟩ ⟨1⟩ ∧
      m.world.classes.entries.toList.map (·.onEnter) = [some ⟨1⟩, some ⟨0⟩]) by cbv)
  rw [later] at journal
  obtain ⟨entersAgain, owners⟩ := of_decide_eq_true repeats
  exact ⟨fun m member => of_decide_eq_true (List.all_eq_true.1 orderly m member), _, first, _,
    again, _, journal, Moment.enters_of_isEnter enters, Moment.enters_of_isEnter entersAgain, owners⟩

end ScriptHost
