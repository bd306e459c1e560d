import ScriptHost.Proofs.Embedder.Requests

set_option autoImplicit false

namespace ScriptHost

namespace Tracker

variable {t u : Tracker} {handle : Nat} {o : ObjectId}

inductive Step where
  | reclaim (handle : Nat)
  | drain
  | add (o : ObjectId)

def apply (t : Tracker) : Step → Tracker
  | .reclaim handle => t.reclaim handle
  | .drain => t.drain
  | .add o => (t.add o).2

def after (t : Tracker) (steps : List Step) : Tracker := steps.foldl apply t

def Reaches (t u : Tracker) : Prop := ∃ steps, u = t.after steps

theorem Reaches.refl (t : Tracker) : t.Reaches t := ⟨[], rfl⟩

theorem Reaches.of_eq (same : u = t) : t.Reaches u := same ▸ .refl t

theorem Reaches.trans {v : Tracker} (first : t.Reaches u) (rest : u.Reaches v) : t.Reaches v := by
  obtain ⟨steps, rfl⟩ := first
  obtain ⟨more, rfl⟩ := rest
  exact ⟨steps ++ more, List.foldl_append.symm⟩

structure Retains (t : Tracker) (handle : Nat) (o : ObjectId) : Prop where
  tracked : (handle, o) ∈ t.entries
  unqueued : handle ∉ t.queue

structure IsConsistent (t : Tracker) : Prop where
  keyed : (t.entries.map (·.1)).Nodup ∧ (t.index.map (·.1)).Nodup
  inverse : ∀ handle o, t.object? handle = some o ↔ t.handle? o = some handle
  ascending : t.order.Pairwise (· < ·)
  listed : ∀ handle, handle ∈ t.order ↔ (t.object? handle).isSome
  bounded : ∀ handle ∈ t.order, 0 < handle ∧ handle < t.next
  single : ∀ steps handle o o', t.object? handle = some o →
    (t.after steps).object? handle = some o' → o' = o
  gone : ∀ steps handle, handle < t.next → t.object? handle = none →
    (t.after steps).object? handle = none
  kept : ∀ steps handle o, t.object? handle = some o → handle ∉ t.queue →
    .reclaim handle ∉ steps →
    (t.after steps).object? handle = some o ∧ (t.after steps).handle? o = some handle
  renewed : ∀ steps old new o, t.handle? o = some old → (t.after steps).handle? o = some new →
    old ≠ new → old < new ∧ (t.after steps).object? old = none
  idle : ∀ handle, t.object? handle = none ∨ handle ∈ t.queue →
    (t.reclaim handle).drain = t.drain

section Step

theorem Sound.apply (sound : t.Sound) (step : Step) : (t.apply step).Sound := by
  cases step with
  | reclaim handle => exact sound.reclaim handle
  | drain => exact sound.drain
  | add o => exact sound.add o

theorem follows_apply (t : Tracker) (step : Step) : t.Follows (t.apply step) := by
  cases step with
  | reclaim handle => exact t.follows_reclaim handle
  | drain => exact t.follows_drain
  | add o => exact t.follows_add o

theorem Sound.queue_drain (sound : t.Sound) : t.drain.queue = [] :=
  congrArg queue sound.drain_eq

theorem Sound.queue_add (sound : t.Sound) (o : ObjectId) : (t.add o).2.queue = [] := by
  simp only [Tracker.add]
  split
  next => exact sound.queue_drain
  next => exact sound.queue_drain

theorem Retains.drain (retains : t.Retains handle o) (sound : t.Sound) :
    t.drain.Retains handle o where
  tracked := by
    rw [drain_entries]
    exact List.mem_filter.2 ⟨retains.tracked, decide_eq_true retains.unqueued⟩
  unqueued := sound.queue_drain ▸ List.not_mem_nil

theorem Retains.add (retains : t.Retains handle o) (sound : t.Sound) (d : ObjectId) :
    (t.add d).2.Retains handle o := by
  refine ⟨?_, sound.queue_add d ▸ List.not_mem_nil⟩
  have left := (retains.drain sound).tracked
  simp only [Tracker.add]
  split
  next => exact left
  next fresh =>
    rw [sound.drain.enter_eq fresh]
    exact List.mem_append_left _ left

theorem Retains.reclaim (retains : t.Retains handle o) {gone : Nat} (other : gone ≠ handle) :
    (t.reclaim gone).Retains handle o := by
  refine ⟨retains.tracked, fun queued => ?_⟩
  rcases List.mem_append.1 queued with before | now
  · exact retains.unqueued before
  · exact other (List.mem_singleton.1 now).symm

theorem Retains.apply (retains : t.Retains handle o) (sound : t.Sound) {step : Step}
    (other : step ≠ .reclaim handle) : (t.apply step).Retains handle o := by
  cases step with
  | reclaim gone => exact retains.reclaim fun same => other (congrArg Step.reclaim same)
  | drain => exact retains.drain sound
  | add d => exact retains.add sound d

end Step

section Steps

variable (steps : List Step)

theorem Sound.after (sound : t.Sound) : (t.after steps).Sound := by
  induction steps generalizing t with
  | nil => exact sound
  | cons step rest ih => exact ih (sound.apply step)

theorem follows_after (t : Tracker) : t.Follows (t.after steps) := by
  induction steps generalizing t with
  | nil => exact .refl t
  | cons step rest ih => exact (t.follows_apply step).trans (ih (t.apply step))

theorem Retains.after (retains : t.Retains handle o) (sound : t.Sound)
    (others : .reclaim handle ∉ steps) : (t.after steps).Retains handle o := by
  induction steps generalizing t with
  | nil => exact retains
  | cons step rest ih =>
    obtain ⟨other, others⟩ := not_or.1 (mt List.mem_cons.2 others)
    exact ih (retains.apply sound (Ne.symm other)) (sound.apply step) others

end Steps

theorem Sound.without_congr (sound : t.Sound) {gone gone' : List Nat}
    (same : ∀ handle ∈ t.handles, handle ∈ gone ↔ handle ∈ gone') :
    t.without gone = t.without gone' := by
  have agree {handle : Nat} (tracked : handle ∈ t.handles) :
      decide (handle ∉ gone) = decide (handle ∉ gone') :=
    decide_eq_decide.2 (not_congr (same handle tracked))
  have entries : t.entries.filter (·.1 ∉ gone) = t.entries.filter (·.1 ∉ gone') :=
    List.filter_congr fun e member => agree (mem_handles member)
  have index : t.index.filter (·.2 ∉ gone) = t.index.filter (·.2 ∉ gone') :=
    List.filter_congr fun (o, handle) member => agree (mem_handles ((sound.inverse handle o).1 member))
  have order : t.order.filter (· ∉ gone) = t.order.filter (· ∉ gone') :=
    List.filter_congr fun handle member => agree ((sound.listed handle).1 member)
  rw [Tracker.without, entries, index, order, Tracker.without]

theorem Sound.drain_reclaim (sound : t.Sound)
    (idle : t.object? handle = none ∨ handle ∈ t.queue) : (t.reclaim handle).drain = t.drain := by
  rw [(sound.reclaim handle).drain_eq, sound.drain_eq]
  show t.without (t.queue ++ [handle]) = t.without t.queue
  refine sound.without_congr fun other tracked => ?_
  rw [List.mem_append, List.mem_singleton, or_iff_left_iff_imp]
  rintro rfl
  refine idle.resolve_left fun none => ?_
  obtain ⟨e, member, same⟩ := List.mem_map.1 tracked
  exact ne_of_object?_eq_none none e member same

theorem Sound.isConsistent (sound : t.Sound) : t.IsConsistent where
  keyed := ⟨sound.keyed, sound.indexed⟩
  inverse _ _ := sound.object?_iff.trans sound.handle?_iff.symm
  ascending := sound.ascending
  listed handle := (sound.listed handle).trans isSome_object?.symm
  bounded handle member :=
    have tracked := (sound.listed handle).1 member
    ⟨sound.positive handle tracked, sound.below handle tracked⟩
  single steps handle o o' first second := by
    have tracked := mem_of_object? first
    have old := sound.below handle (mem_handles tracked)
    exact sound.unique ((t.follows_after steps).entries _ (mem_of_object? second) old) tracked
  gone steps handle old none := by
    cases found : (t.after steps).object? handle with
    | none => rfl
    | some o =>
      have tracked := (t.follows_after steps).entries _ (mem_of_object? found) old
      exact absurd rfl (ne_of_object?_eq_none none _ tracked)
  kept steps handle o found unqueued others := by
    have retains := Retains.after steps ⟨mem_of_object? found, unqueued⟩ sound others
    have later := sound.after steps
    exact ⟨later.object?_iff.2 retains.tracked, later.handle?_iff.2 retains.tracked⟩
  renewed steps old new o first second apart := by
    have tracked := sound.handle?_iff.1 first
    have given := sound.below old (mem_handles tracked)
    have later := sound.after steps
    have tracked' := later.handle?_iff.1 second
    have follows := t.follows_after steps
    refine ⟨?_, ?_⟩
    -- a new handle from before the steps would be an old entry of the same object
    · by_cases before : new < t.next
      · exact absurd (sound.single tracked (follows.entries _ tracked' before)) apart
      · exact Nat.lt_of_lt_of_le given (Nat.le_of_not_lt before)
    · cases found : (t.after steps).object? old with
      | none => rfl
      | some d =>
        have left := mem_of_object? found
        obtain rfl := sound.unique tracked (follows.entries _ left given)
        exact absurd (later.single left tracked') apart
  idle _ := sound.drain_reclaim

example : (empty.after [.add ⟨7⟩, .reclaim 1, .add ⟨7⟩, .reclaim 1, .reclaim 1, .drain]).handle? ⟨7⟩ =
    some 2 := by decide

end Tracker

variable {σ τ : Type} {making : List ContextId}

def World.Tracks (w w' : World τ) : Prop :=
  ∀ c, (w.context c).tracker.Reaches (w'.context c).tracker

namespace World.Tracks

variable {u v w : World τ}

theorem of_same (same : w.contexts = v.contexts) : v.Tracks w := fun c =>
  .of_eq (by rw [context, context, same])

theorem refl (w : World τ) : w.Tracks w := .of_same rfl

theorem trans (first : u.Tracks v) (rest : v.Tracks w) : u.Tracks w :=
  fun c => (first c).trans (rest c)

theorem updateContext (w : World τ) (c : ContextId) {f : Context → Context}
    (reaches : (w.context c).tracker.Reaches (f (w.context c)).tracker) :
    w.Tracks (w.updateContext c f) := by
  intro d
  rw [context_updateContext]
  split
  next here => exact here.1 ▸ reaches
  next => exact .refl _

theorem update (w : World τ) (c : ContextId) {f : Context → Context}
    (same : (f (w.context c)).tracker = (w.context c).tracker) : w.Tracks (w.updateContext c f) :=
  .updateContext w c (.of_eq same)

theorem popFrame (w : World τ) (c : ContextId) : w.Tracks (w.popFrame c) := by
  unfold World.popFrame
  split
  next => exact .refl w
  next => exact .update w c rfl

theorem leaveHook (w : Recorded σ) (c : ContextId) (lower : Bytes) (hook : Callback)
    (outcome : Except Signal (Option Failure)) :
    (w.note (.answered (.enterClass hook c) outcome)).Tracks (w.leaveHook c lower hook outcome) := by
  unfold World.leaveHook
  split
  next => exact .update _ c rfl
  next => exact .refl _

theorem enlist (w : World τ) (s : ScopeId) (sink : SinkId) : w.Tracks (w.enlist s sink) := by
  intro c
  refine .of_eq ?_
  show ((w.contexts.add (w.newcomer s sink)).get c).tracker = (w.contexts.get c).tracker
  rw [Pool.get_add]
  split
  next new =>
    have unknown : ¬ w.contexts.has c := fun known => w.contexts.ne_next_of_has known new
    rw [Pool.get_of_not_has _ unknown]
    rfl
  next => rfl

end World.Tracks

theorem Change.tracks {w w' : Recorded σ} (step : Change making w w') : w.Tracks w' := by
  cases step with
  | reclaim c handle => exact .updateContext w c ⟨[.reclaim handle], rfl⟩
  | drain c => exact .updateContext w c ⟨[.drain], rfl⟩
  | track c o => exact .updateContext w c ⟨[.add o], rfl⟩
  | adjust c f adjusts =>
    exact .update w c (congrArg Context.Holdings.tracker (adjusts (w.context c)).holdings)
  | popCall c => exact .popFrame w c
  | close c => exact .update w c rfl
  | pushCall c | loadClass c | cacheFunction c | insertFunction c | mergeFunctions c
  | cacheConstant c | insertConstant c | inherit c | assign c | remember c =>
    exact .update w c rfl
  | _ => exact .of_same rfl

def Moment.IsGiven (m : Moment σ) : Prop :=
  ∀ c o handle, m.event = .finished (.act c (.track (some o))) (.ok handle) →
    handle = 0 ∨ (m.world.context c).tracker.object? handle = some o ∧
      handle ∉ (m.world.context c).tracker.queue

structure HandlesConsistent (journal : List (Moment σ)) : Prop where
  consistent : ∀ m ∈ journal, ∀ c, (m.world.context c).tracker.IsConsistent
  given : ∀ m ∈ journal, m.IsGiven
  onward : journal.Pairwise fun m m' => m.world.Tracks m'.world

namespace HandlesConsistent

variable {journal : List (Moment σ)} (holds : HandlesConsistent journal)
include holds

theorem distinct : ∀ m ∈ journal, ∀ m' ∈ journal, ∀ c handle o o',
    (m.world.context c).tracker.object? handle = some o →
    (m'.world.context c).tracker.object? handle = some o' → o = o' := by
  -- whichever moment is the earlier one, the handle stands for its object from then on
  have earlier : journal.Pairwise fun m m' => ∀ c handle o o',
      (m.world.context c).tracker.object? handle = some o →
      (m'.world.context c).tracker.object? handle = some o' → o = o' := by
    refine holds.onward.imp_of_mem fun {m m'} member _ onward c handle o o' first second => ?_
    obtain ⟨steps, same⟩ := onward c
    rw [same] at second
    exact ((holds.consistent m member c).single steps handle o o' first second).symm
  refine List.Pairwise.forall_of_forall_of_flip ?_ earlier (earlier.imp ?_)
  · exact fun m _ c handle o o' first second => Option.some.inj (first.symm.trans second)
  · exact fun agree c handle o o' first second => (agree c handle o' o second first).symm

theorem renewed : journal.Pairwise fun m m' => ∀ c old new o,
    (m.world.context c).tracker.handle? o = some old →
    (m'.world.context c).tracker.handle? o = some new → old ≠ new →
    old < new ∧
      ((m'.world.context c).tracker.reclaim old).drain = (m'.world.context c).tracker.drain := by
  refine holds.onward.imp_of_mem fun {m m'} member member' onward c old new o first second apart => ?_
  obtain ⟨steps, same⟩ := onward c
  rw [same] at second
  obtain ⟨greater, unknown⟩ :=
    (holds.consistent m member c).renewed steps old new o first second apart
  rw [← same] at unknown
  exact ⟨greater, (holds.consistent m' member' c).idle old (.inl unknown)⟩

end HandlesConsistent

structure World.IsTracked (w : Recorded σ) : Prop where
  reached : ∀ c, Tracker.empty.Reaches (w.context c).tracker
  since : ∀ m ∈ w.embedder.journal, m.world.Tracks w.unrecorded
  holds : HandlesConsistent w.embedder.journal

namespace World.IsTracked

variable {w w' : Recorded σ}

theorem start (files : FileTree) (own : σ) : (World.start files own).IsTracked where
  reached _ := .refl _
  since := List.forall_mem_nil _
  holds := ⟨List.forall_mem_nil _, List.forall_mem_nil _, .nil⟩

theorem sound (tracked : w.IsTracked) (c : ContextId) : (w.context c).tracker.Sound := by
  obtain ⟨steps, same⟩ := tracked.reached c
  exact same ▸ Tracker.empty_sound.after steps

theorem later (before : w.IsTracked) (tracks : w.Tracks w')
    (journal : w'.embedder.journal = w.embedder.journal) : w'.IsTracked where
  reached c := (before.reached c).trans (tracks c)
  since := journal ▸ fun m member => (before.since m member).trans tracks
  holds := journal ▸ before.holds

theorem note (before : w.IsTracked) (event : Event)
    (given : ∀ c o handle, event = .finished (.act c (.track (some o))) (.ok handle) →
      handle = 0 ∨ (w.context c).tracker.object? handle = some o ∧
        handle ∉ (w.context c).tracker.queue) : (w.note event).IsTracked := by
  obtain ⟨consistent, given', onward⟩ := before.holds
  have each {P : Moment σ → Prop} (old : ∀ m ∈ w.embedder.journal, P m)
      (new : P ⟨event, w.embedder.running, w.unrecorded⟩) :
      ∀ m ∈ (w.note event).embedder.journal, P m :=
    List.forall_mem_append.2 ⟨old, List.forall_mem_singleton.2 new⟩
  refine ⟨before.reached, each before.since (.refl _),
    each consistent fun c => (before.sound c).isConsistent, each given' given, ?_⟩
  refine List.pairwise_append.2 ⟨onward, List.pairwise_singleton _ _, fun m earlier m' last => ?_⟩
  rw [List.mem_singleton.1 last]
  exact before.since m earlier

theorem leaveHook (before : w.IsTracked) (c : ContextId) (lower : Bytes) (hook : Callback)
    (outcome : Except Signal (Option Failure)) : (w.leaveHook c lower hook outcome).IsTracked := by
  have noted := before.note (.answered (.enterClass hook c) outcome) nofun
  exact noted.later (.leaveHook w c lower hook outcome) (w.journal_leaveHook c lower hook outcome)

end World.IsTracked

theorem Change.isTracked {w w' : Recorded σ} (step : Change making w w') (before : w.IsTracked) :
    w'.IsTracked := by
  have tracks := step.tracks
  cases step with
  | note event isPlain =>
    refine before.note event fun c o handle same => ?_
    rw [same] at isPlain
    cases isPlain
  | popCall c => exact before.later tracks (by rw [World.popFrame_embedder])
  | _ => exact before.later tracks rfl

theorem Course.tracked {w w' : Recorded σ} (course : Course making w w') (before : w.IsTracked) :
    w'.IsTracked := by
  induction course with
  | still => exact before
  | change step => exact step.isTracked before
  | trans _ _ first rest => exact rest (first before)
  | @operation _ w w' o outcome _ delivers _ ih =>
    have ended := ih (before.later (.of_same rfl) rfl)
    have paused : World.IsTracked
        { w' with embedder := { w'.embedder with running := w.embedder.running } } :=
      ended.later (.of_same rfl) rfl
    -- a request to track is the only one that hands out a handle
    refine paused.note (.finished o outcome) fun c d handle same => ?_
    cases same
    refine (delivers handle rfl).imp_right fun added => ?_
    have sound := before.sound c
    have there := sound.mem_add d
    have unqueued := sound.queue_add d
    rw [show (w.context c).tracker.add d = _ from added] at there unqueued
    exact ⟨(ended.sound c).object?_iff.2 there, fun queued => List.not_mem_nil (unqueued ▸ queued)⟩
  | @frame _ w w' c f _ _ ih =>
    have ended := ih (before.later (.update w c rfl) rfl)
    exact ended.later (.popFrame w' c) (by rw [World.popFrame_embedder])
  | @autoload _ w w' c _ _ _ _ _ ih =>
    exact (ih (before.later (.update w c rfl) rfl)).later (.update w' c rfl) rfl
  | @destructor _ w v w' c o k f _ known _ retires _ calls ih =>
    have marked : World.IsTracked (w.markFinalized o) := before.later (.of_same rfl) rfl
    have given : World.IsTracked v := retires.elim known calls.acts marked (·.isTracked marked)
    have pushed : World.IsTracked (v.pushFrame c f) := given.later (.update _ c rfl) rfl
    have ended := ih (pushed.note (.called (.destroyObject k c o)) nofun)
    exact ended.later (.popFrame w' c) (by rw [World.popFrame_embedder])
  | @hook _ w w' c k k' _ _ _ _ outcome _ _ _ ih =>
    have inserted : World.IsTracked (w.insertClass c k) := before.later (.update w c rfl) rfl
    exact (ih (inserted.note (.called (.enterClass k' c)) nofun)).leaveHook c _ k' outcome
  | @registration _ w w' c _ _ _ _ _ ih => exact (ih before).later (.update w' c rfl) rfl
  | attempt _ _ _ _ ih =>
    exact (ih (before.later (.of_same rfl) rfl)).later (.of_same rfl) rfl
  | @loading _ w u v w' c source _ _ _ _ event m loaded _ ended ih ih' =>
    have answered := (ih (before.later (.of_same rfl) rfl)).note event fun d o handle same => by
      rw [same] at loaded
      cases loaded
    have kept : World.IsTracked w' :=
      (ih' answered).later (.of_same ended.contexts) (congrArg _ ended.embedder)
    exact kept.later (.of_same rfl) rfl
  | @creation w _ s sink _ _ _ ih => exact ih (before.later (.enlist w s sink) rfl)

/-- In every run the handles of each context are consistent at all moments, those included at which a
destructor runs, and no handle is given to two objects. An object that is registered again keeps its
new handle, whatever is done about the old one. -/
theorem Script.handles_consistent {ρ : Type} (s : Script σ) (depth : Nat) (code : Code σ ρ)
    (files : FileTree) (own : σ) :
    HandlesConsistent (s.journal depth code files own) ∧
    (∀ m ∈ s.journal depth code files own, ∀ m' ∈ s.journal depth code files own,
      ∀ c handle o o', (m.world.context c).tracker.object? handle = some o →
        (m'.world.context c).tracker.object? handle = some o' → o = o') ∧
    (s.journal depth code files own).Pairwise fun m m' => ∀ c old new o,
      (m.world.context c).tracker.handle? o = some old →
      (m'.world.context c).tracker.handle? o = some new → old ≠ new →
      old < new ∧
        ((m'.world.context c).tracker.reclaim old).drain = (m'.world.context c).tracker.drain := by
  have tracked := (s.course depth code files own).tracked (.start files own)
  exact ⟨tracked.holds, tracked.holds.distinct, tracked.holds.renewed⟩

end ScriptHost
