import ScriptHost.Proofs.Embedder.Directness
import ScriptHost.Proofs.Lifecycle.Accounting

set_option autoImplicit false

namespace ScriptHost

variable {σ : Type} {making : List ContextId} {home : Option ContextId}

def World.IsSettled {τ : Type} (w : World τ) (c : ContextId) : Prop :=
  ∀ o ∈ (w.context c).tracker.objects, (w.objects.get o).isFinalized

theorem World.has_of_tracked {τ : Type} {w : World τ} {c : ContextId} {e : Nat × ObjectId}
    (tracked : e ∈ (w.context c).tracker.entries) : w.contexts.has c := by
  by_cases known : w.contexts.has c
  · exact known
  · rw [World.context, Pool.get_of_not_has _ known] at tracked
    cases tracked

theorem Lifecycle.finalize_unknown {τ : Type} {h : Host τ} {w w' : World τ} {c : ContextId}
    (unknown : ¬ w.contexts.has c) (returned : Lifecycle.finalize h c w = (.ok (), w')) :
    w' = w := by
  have still (f : Context → Context) : w.updateContext c f = w :=
    congrArg (fun contexts => { w with contexts }) (w.contexts.modify_of_not_has unknown f)
  unfold finalize at returned
  revert returned
  cases h.patience with
  | zero => exact nofun
  | succ rounds =>
    intro returned
    obtain ⟨_, v, drained, returned⟩ := Run.of_bind_ok returned
    obtain rfl : w = v := (still _).symm.trans (congrArg Prod.snd drained)
    rw [Run.bind_ok (Run.context_apply w c), World.context, Pool.get_of_not_has _ unknown] at returned
    cases returned
    rfl

theorem Lifecycle.pending_of_settled {τ : Type} {w : World τ} {c : ContextId}
    (settled : w.IsSettled c) : (Lifecycle.pending c w).1 = .ok 0 := by
  have kept : ∀ o ∈ ((w.updateContext c fun x => { x with tracker := x.tracker.drain }).context
      c).tracker.objects, o ∈ (w.context c).tracker.objects := by
    intro o member
    rw [World.context_updateContext] at member
    split at member
    · exact ((Tracker.drain_entries_sublist _).map _).subset member
    · exact member
  have none : ((w.updateContext c fun x => { x with tracker := x.tracker.drain }).context
      c).tracker.objects.filter (fun o => !(w.objects.get o).isFinalized) = [] := by
    rw [List.filter_eq_nil_iff]
    intro o member
    simp [settled o (kept o member)]
  exact congrArg (fun left => Except.ok (List.length left)) none

namespace Moment

def Destroys (m : Moment σ) (c : ContextId) (o : ObjectId) : Prop :=
  ∃ k, m.event = .called (.destroyObject k c o)

def IsRequested (m : Moment σ) (c : ContextId) (o : ObjectId) : Prop :=
  m.running.head? = some (.act c (.destruct (some o)))

structure DestroysIn (m : Moment σ) (v : World σ) (c : ContextId) (o : ObjectId) : Prop where
  pending : (v.objects.get o).isFinalized = false
  known : v.objects.has o
  cause : m.IsRequested c o ∨ ∃ handle, v.IsFirst c handle o
  marked : ∃ f, m.world = (v.markFinalized o).pushFrame c f

structure ArisesIn (m : Moment σ) (v : World σ) : Prop where
  sound : v.Sound
  onward : v.Extends m.world
  destroys : ∀ c o, m.Destroys c o → m.DestroysIn v c o
  settles : ∀ c, m.event = .finished (.act c .finalize) (.ok ()) → m.world.IsSettled c

end Moment

inductive Chronicle : List (Moment σ) → World σ → Prop
  | start (w : World σ) : Chronicle [] w
  | later {journal : List (Moment σ)} {v w : World σ} (before : Chronicle journal v)
      (onward : v.Extends w) : Chronicle journal w
  | moment {journal : List (Moment σ)} {v : World σ} (m : Moment σ) (before : Chronicle journal v)
      (arises : m.ArisesIn v) : Chronicle (journal ++ [m]) m.world

def World.IsChronicled (w : Recorded σ) : Prop := Chronicle w.embedder.journal w.unrecorded

namespace World.IsChronicled

variable {w w' : Recorded σ}

theorem later (before : w.IsChronicled) (onward : w.Extends w')
    (journal : w'.embedder.journal = w.embedder.journal) : w'.IsChronicled := by
  unfold IsChronicled
  rw [journal]
  exact Chronicle.later before onward.unrecorded

theorem note (before : w.IsChronicled) (sound : w.Sound) (event : Event)
    (others : ∀ k c o, event ≠ .called (.destroyObject k c o))
    (settles : ∀ c, event = .finished (.act c .finalize) (.ok ()) → w.IsSettled c) :
    (w.note event).IsChronicled :=
  Chronicle.moment ⟨event, w.embedder.running, w.unrecorded⟩ before
    ⟨sound.unrecorded, .refl _, fun c o ⟨k, same⟩ => absurd same (others k c o), settles⟩

theorem start (files : FileTree) (own : σ) : (World.start files own).IsChronicled :=
  Chronicle.start _

-- the only step that calls a destructor: the call is recorded where the object has just been marked
theorem destroy (before : w.IsChronicled) (sound : w.Sound) {v : Recorded σ} {c : ContextId}
    {o : ObjectId} (pending : (w.objects.get o).isFinalized = false) (known : w.objects.has o)
    (retires : w.Retires c o v) (k : Callback) (f : Frame) :
    ((v.pushFrame c f).note (.called (.destroyObject k c o))).IsChronicled := by
  have marked (u : Recorded σ) (still : u.IsChronicled) (sound : u.Sound)
      (pending : (u.objects.get o).isFinalized = false) (known : u.objects.has o)
      (cause : u.embedder.running.head? = some (.act c (.destruct (some o))) ∨
        ∃ handle, u.unrecorded.IsFirst c handle o) :
      (((u.markFinalized o).pushFrame c f).note (.called (.destroyObject k c o))).IsChronicled := by
    have onward := (World.Extends.markFinalized u o).trans (World.extends_pushFrame _ c f)
    exact Chronicle.moment ⟨_, u.embedder.running, ((u.markFinalized o).pushFrame c f).unrecorded⟩
      still ⟨sound.unrecorded, onward.unrecorded, by
        rintro c' o' ⟨k', ⟨⟩⟩
        exact ⟨pending, known, cause, f, rfl⟩, nofun⟩
  cases retires with
  | asked running => exact marked w before sound pending known (.inl running)
  | visited handle found first =>
    have there : w.contexts.has c := World.has_of_tracked first.tracked
    have context := (w.context_updateContext c c fun x =>
      { x with tracker := x.tracker.reclaim handle }).trans (if_pos ⟨rfl, there⟩)
    have still : World.IsFirst (w.reclaim c handle).unrecorded c handle o := by
      refine ⟨?_, pending, ?_⟩
      · rw [show (w.reclaim c handle).unrecorded.context c = _ from context]
        exact first.tracked
      · rw [show (w.reclaim c handle).unrecorded.context c = _ from context]
        exact first.least
    exact marked (w.reclaim c handle) (before.later (w.extends_reclaim c handle) rfl)
      (sound.reclaim c handle) pending known (.inr ⟨handle, still⟩)

end World.IsChronicled

theorem Change.chronicled {w w' : Recorded σ} (step : Change making w w') (sound : w.Sound)
    (before : w.IsChronicled) : w'.IsChronicled := by
  have onward := step.extends
  cases step with
  | note event isPlain =>
    refine before.note sound event (fun k c o same => ?_) (fun c same => ?_)
    all_goals rw [same] at isPlain; cases isPlain
  | popCall c => exact before.later onward (by rw [World.popFrame_embedder])
  | _ => exact before.later onward rfl

theorem Course.chronicled {w w' : Recorded σ} (course : Course making w w') (sound : w.Sound)
    (before : w.IsChronicled) : w'.IsChronicled := by
  induction course with
  | still => exact before
  | change step => exact step.chronicled sound before
  | trans first _ ih ih' => exact ih' (first.sound sound) (ih sound before)
  | @operation _ w w' o outcome inner delivers _ ih =>
    have ended := ih (sound.begin o) before
    have settles : ∀ c, Event.finished o outcome = .finished (.act c .finalize) (.ok ()) →
        w'.IsSettled c := by
      rintro c ⟨⟩
      exact delivers rfl
    -- only a finalization that ends well settles a context, and this is what it delivers
    exact Chronicle.moment ⟨.finished o outcome, w.embedder.running, w'.unrecorded⟩ ended
      ⟨(inner.sound (sound.begin o)).unrecorded, .refl _, fun _ _ ⟨_, same⟩ => (nomatch same),
        settles⟩
  | @frame _ w _ c f inner calls ih =>
    have ended := ih (sound.pushFrame c calls.known) (before.later (w.extends_pushFrame c f) rfl)
    exact ended.later (World.extends_popFrame _ c) (by rw [World.popFrame_embedder])
  | @autoload _ w w' c key _ _ _ _ ih =>
    have entered := before.later (w.extends_updateLoaders c (·.enter key)) rfl
    exact (ih (sound.updateLoaders c _) entered).later (w'.extends_updateLoaders c _) rfl
  | destructor c o k f pending known _ retires _ calls ih =>
    have started := before.destroy sound pending known retires k f
    have ended := ih ((sound.destroying retires calls.known).note _) started
    exact ended.later (World.extends_popFrame _ c) (by rw [World.popFrame_embedder])
  | @hook _ w w' c k k' _ known entrance own outcome inner _ _ ih =>
    have inserted := sound.insertClass c k known
    have called := (before.later (w.extends_insertClass c k) rfl).note inserted
      (.called (.enterClass k' c)) nofun nofun
    have answered := (ih (inserted.note _) called).note (inner.sound (inserted.note _))
      (.answered (.enterClass k' c) outcome) nofun nofun
    unfold World.leaveHook
    split
    next => exact answered.later (.updateContext _ _ _ (.of_same rfl rfl rfl rfl rfl rfl)) rfl
    next => exact answered
  | @registration _ w w' c m _ _ inner _ ih =>
    exact (ih sound before).later (w'.extends_recordModule c m) rfl
  | @attempt _ w w' c _ _ inner ih =>
    have ended := ih (sound.setImporting _ true) (before.later (w.extends_setImporting _ true) rfl)
    exact ended.later (w'.extends_setImporting _ false) rfl
  | @loading _ w u v w' c source _ _ _ inner event m loaded _ ended ih ih' =>
    have locked := sound.setImporting (w.context c).scope true
    have answered : World.IsChronicled (u.note event) :=
      (ih locked (before.later (w.extends_setImporting _ true) rfl)).note (inner.sound locked) event
        (fun k d o same => by rw [same] at loaded; cases loaded)
        (fun d same => by rw [same] at loaded; cases loaded)
    have kept := ih' ((inner.sound locked).note event) answered
    exact (kept.later ended.extends (congrArg _ ended.embedder)).later
      (w'.extends_setImporting _ false) rfl
  | @creation w _ s sink known _ _ ih =>
    exact ih (sound.enlist known sink) (before.later (w.extends_enlist s sink) rfl)

namespace Chronicle

variable {journal : List (Moment σ)} {w : World σ}

theorem onward (chronicle : Chronicle journal w) : ∀ m ∈ journal, m.world.Extends w := by
  induction chronicle with
  | start => exact fun m member => nomatch member
  | later _ onward ih => exact fun m member => (ih m member).trans onward
  | moment m _ arises ih =>
    intro e member
    rcases List.mem_append.1 member with earlier | last
    · exact (ih e earlier).trans arises.onward
    · rw [List.mem_singleton.1 last]
      exact .refl _

theorem arises (chronicle : Chronicle journal w) : ∀ m ∈ journal, ∃ v, m.ArisesIn v := by
  induction chronicle with
  | start => exact fun m member => nomatch member
  | later _ _ ih => exact ih
  | @moment _ v m _ arises ih =>
    intro e member
    rcases List.mem_append.1 member with earlier | last
    · exact ih e earlier
    · rw [List.mem_singleton.1 last]
      exact ⟨v, arises⟩

theorem pairwise (chronicle : Chronicle journal w) :
    journal.Pairwise fun m m' => ∃ v, m.world.Extends v ∧ m'.ArisesIn v := by
  induction chronicle with
  | start => exact .nil
  | later _ _ ih => exact ih
  | @moment _ v m before arises ih =>
    refine List.pairwise_append.2 ⟨ih, List.pairwise_singleton _ m, fun e earlier m' last => ?_⟩
    rw [List.mem_singleton.1 last]
    exact ⟨v, before.onward e earlier, arises⟩

end Chronicle

namespace Moment.DestroysIn

variable {m : Moment σ} {v : World σ} {c : ContextId} {o : ObjectId}

theorem finalized (destroys : m.DestroysIn v c o) : (m.world.objects.get o).isFinalized := by
  obtain ⟨f, marked⟩ := destroys.marked
  rw [marked]
  exact congrArg Object.isFinalized (Pool.get_modify_self v.objects o _ destroys.known)

theorem tracker (destroys : m.DestroysIn v c o) (d : ContextId) :
    (m.world.context d).tracker = (v.context d).tracker := by
  obtain ⟨f, marked⟩ := destroys.marked
  rw [marked]
  exact Pool.modify_keeps v.contexts c d (·.pushFrame f) Context.tracker fun _ => rfl

theorem isFirst (destroys : m.DestroysIn v c o) (unasked : ¬ m.IsRequested c o) :
    ∃ handle, v.IsFirst c handle o :=
  destroys.cause.resolve_left unasked

end Moment.DestroysIn

/-- What a pass has done by the end about the objects that its context has tracked before: all of
them are marked, but for those that the embedder has taken out itself, and their destructors have
been called. -/
structure World.Clears (u : World σ) (c : ContextId) (moments : List (Moment σ))
    (running : List Operation) (w : World σ) : Prop where
  marked : ∀ handle o, (u.context c).tracker.Retains handle o →
    ¬ HasAsked moments running (· = .act c (.reclaim handle)) → (w.objects.get o).isFinalized
  called : ∀ o k, u.IsArmed o k → (w.objects.get o).isFinalized →
    ¬ HasAsked moments running (·.Disarms o) →
    ∃ m ∈ moments, ∃ c, m.event = .called (.destroyObject k c o)

theorem World.Accounts.called {u w : World σ} {moments : List (Moment σ)} {running : List Operation}
    (accounts : u.Accounts moments running w) {o : ObjectId} {k : Callback} (armed : u.IsArmed o k)
    (finalized : (w.objects.get o).isFinalized) (unasked : ¬ HasAsked moments running (·.Disarms o)) :
    ∃ m ∈ moments, ∃ c, m.event = .called (.destroyObject k c o) := by
  rcases accounts.armed o k armed with asked | called | still
  · exact absurd asked unasked
  · exact called
  · exact nomatch finalized.symm.trans still.1

theorem World.Accounts.clears {u w : World σ} {moments : List (Moment σ)} {running : List Operation}
    (accounts : u.Accounts moments running w) {c : ContextId} (settled : w.IsSettled c) :
    u.Clears c moments running w where
  marked handle o retains unasked := by
    rcases accounts.tracked c handle o retains with asked | finalized | still
    · exact absurd asked unasked
    · exact finalized
    · exact settled o (List.mem_map.2 ⟨_, still.tracked, rfl⟩)
  called _ _ armed finalized unasked := accounts.called armed finalized unasked

structure DestructionCorrect (journal : List (Moment σ)) : Prop where
  once : journal.Pairwise fun m m' => ∀ c c' o, m.Destroys c o → ¬ m'.Destroys c' o
  complete : ∀ m ∈ journal, ∀ c, m.event = .finished (.act c .finalize) (.ok ()) →
    m.world.IsSettled c ∧ (Lifecycle.pending c m.world).1 = .ok 0
  cleared : ∀ early e between m late, journal = early ++ e :: (between ++ m :: late) →
    ∀ c, m.event = .finished (.act c .finalize) (.ok ()) →
    e.world.Clears c (between ++ [m]) m.running m.world
  called : ∀ early e between m late, journal = early ++ e :: (between ++ m :: late) →
    ∀ o k, e.world.IsArmed o k → (m.world.objects.get o).isFinalized →
    ¬ HasAsked (between ++ [m]) m.running (·.Disarms o) → ∃ d ∈ between ++ [m], ∃ c,
      d.event = .called (.destroyObject k c o)
  first : ∀ m ∈ journal, ∀ c o, m.Destroys c o → ¬ m.IsRequested c o →
    ∃ (v : World σ) (handle : Nat) (f : Frame), v.IsFirst c handle o ∧
      m.world = (v.markFinalized o).pushFrame c f
  ordered : journal.Pairwise fun m m' => ∀ c o o' handle handle',
    m.Destroys c o → ¬ m.IsRequested c o → m'.Destroys c o' → ¬ m'.IsRequested c o' →
    (handle, o) ∈ (m.world.context c).tracker.entries →
    (handle', o') ∈ (m'.world.context c).tracker.entries → handle < handle'

namespace Chronicle

variable {journal : List (Moment σ)} {w : World σ}

theorem once (chronicle : Chronicle journal w) :
    journal.Pairwise fun m m' => ∀ c c' o, m.Destroys c o → ¬ m'.Destroys c' o := by
  refine chronicle.pairwise.imp_of_mem fun {m m'} member _ ⟨v, onward, arises⟩ c c' o first => ?_
  intro again
  obtain ⟨u, before⟩ := chronicle.arises m member
  have finalized := (before.destroys c o first).finalized
  have pending := onward.alive (arises.destroys c' o again).pending
  exact nomatch finalized.symm.trans pending

theorem ordered (chronicle : Chronicle journal w) :
    journal.Pairwise fun m m' => ∀ c o o' handle handle',
      m.Destroys c o → ¬ m.IsRequested c o → m'.Destroys c o' → ¬ m'.IsRequested c o' →
      (handle, o) ∈ (m.world.context c).tracker.entries →
      (handle', o') ∈ (m'.world.context c).tracker.entries → handle < handle' := by
  refine chronicle.pairwise.imp_of_mem fun {m m'} member _ ⟨v, onward, arises⟩ c o o' handle handle'
    starts unasked starts' _ tracked tracked' => ?_
  obtain ⟨u, before⟩ := chronicle.arises m member
  have destroys := before.destroys c o starts
  have destroys' := arises.destroys c o' starts'
  obtain ⟨least, first⟩ := destroys.isFirst unasked
  have sound := (before.sound.contexts c).tracker
  have known : m.world.contexts.has c := World.has_of_tracked tracked
  have follows := (onward.contexts c known).2.tracker
  rw [destroys.tracker] at tracked follows
  rw [destroys'.tracker] at tracked'
  obtain rfl := sound.single first.tracked tracked
  by_cases old : handle' < (u.context c).tracker.next
  · have alive := onward.alive destroys'.pending
    have inside := follows.entries _ tracked' old
    refine Nat.lt_of_le_of_ne (first.least _ inside (before.onward.alive alive)) fun same => ?_
    obtain rfl := sound.unique first.tracked (same ▸ inside)
    exact nomatch destroys.finalized.symm.trans alive
  · exact Nat.lt_of_lt_of_le (sound.below _ (List.mem_map.2 ⟨_, tracked, rfl⟩))
      (Nat.le_of_not_lt old)

theorem settles (chronicle : Chronicle journal w) {m : Moment σ} (member : m ∈ journal)
    {c : ContextId} (finished : m.event = .finished (.act c .finalize) (.ok ())) :
    m.world.IsSettled c := by
  obtain ⟨v, arises⟩ := chronicle.arises m member
  exact arises.settles c finished

theorem destructionCorrect (chronicle : Chronicle journal w) {u : World σ}
    {running : List Operation} (accounted : Accounted u journal running w) :
    DestructionCorrect journal where
  once := chronicle.once
  complete m member c finished := by
    have settled := chronicle.settles member finished
    exact ⟨settled, Lifecycle.pending_of_settled settled⟩
  cleared early e between m late split c finished := by
    have settled := chronicle.settles (split ▸ by simp) finished
    exact (accounted.between split).clears settled
  called early e between m late split o k armed finalized unasked :=
    (accounted.between split).called armed finalized unasked
  first m member c o starts unasked := by
    obtain ⟨v, arises⟩ := chronicle.arises m member
    have destroys := arises.destroys c o starts
    obtain ⟨handle, first⟩ := destroys.isFirst unasked
    obtain ⟨f, marked⟩ := destroys.marked
    exact ⟨v, handle, f, first, marked⟩
  ordered := chronicle.ordered

end Chronicle

theorem Lifecycle.finalize_clears {h : Host (Ledger σ)} (follows : h.Follows) {w w' : Recorded σ}
    {c : ContextId} (sound : w.Sound) (returned : Lifecycle.finalize h c w = (.ok (), w')) :
    w'.IsSettled c ∧ ∀ v late, Since w.unrecorded (w.since w') v late →
      v.Clears c late w.embedder.running w'.unrecorded := by
  by_cases there : w.contexts.has c
  · have settled := Lifecycle.finalizeRounds_done follows (sound.readyFor there) returned
    have course := Lifecycle.finalize_follows follows c _ w (sound.readyFor there)
    rw [returned] at course
    obtain ⟨moments, journal, accounted⟩ := course.accounted sound (.start w)
    refine ⟨settled, fun v late since => ?_⟩
    rw [World.since_append journal] at since
    rw [course.running] at accounted
    exact (accounted.now v late since).clears settled
  · -- an unknown context tracks nothing, so that nothing has happened
    obtain rfl := Lifecycle.finalize_unknown there returned
    have settled : w'.IsSettled c := by
      rw [World.IsSettled, World.context, Pool.get_of_not_has _ there]
      exact fun _ tracked => absurd tracked List.not_mem_nil
    refine ⟨settled, fun v late since => ?_⟩
    rw [World.since_append (List.append_nil _).symm] at since
    cases since with
    | start => exact (World.Accounts.refl _ _ _).clears settled
    | moment _ _ _ split => simp at split

/-- In every run, whatever destructors do, each object is destroyed at most once, passes destroy the
objects of a context in the order of registration, and a pass that returns, be it asked for by itself
or as a part of the end of a context, has left nothing to destroy: whatever its context has tracked
before is marked by then, and its destructor has been called. -/
theorem Script.destruction_correct {ρ : Type} (s : Script σ) (depth : Nat) (code : Code σ ρ)
    (files : FileTree) (own : σ) :
    DestructionCorrect (s.journal depth code files own) ∧
    ∀ (depth : Nat) (c : ContextId) (w w' : Recorded σ), w.Sound →
      Lifecycle.finalize (s.host depth) c w = (.ok (), w') →
      w'.IsSettled c ∧ (Lifecycle.pending c w').1 = .ok 0 ∧
      ∀ v late, Since w.unrecorded (w.since w') v late →
        v.Clears c late w.embedder.running w'.unrecorded := by
  have course := s.course depth code files own
  have sound := World.start_sound files own
  have chronicled := course.chronicled sound (.start files own)
  obtain ⟨moments, journal, accounted⟩ := course.accounted sound (.start _)
  have journal : s.journal depth code files own = moments := journal
  refine ⟨chronicled.destructionCorrect (journal ▸ accounted), fun depth c w w' sound returned => ?_⟩
  obtain ⟨settled, clears⟩ := Lifecycle.finalize_clears (s.host_follows depth) sound returned
  exact ⟨settled, Lifecycle.pending_of_settled settled, clears⟩

end ScriptHost
