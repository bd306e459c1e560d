import ScriptHost.Proofs.Embedder.Directness

set_option autoImplicit false

namespace ScriptHost

variable {σ : Type} {making : List ContextId}

/-- What holds of each moment that is added and of the moments before it. -/
def World.AddsAfter (P : List (Moment σ) → Moment σ → Prop) (w w' : Recorded σ) : Prop :=
  ∃ new, w'.embedder.journal = w.embedder.journal ++ new ∧
    ∀ early x late, new = early ++ x :: late → P (w.embedder.journal ++ early) x

namespace World.AddsAfter

variable {P Q : List (Moment σ) → Moment σ → Prop} {u v w : Recorded σ}

theorem of_same (same : w.embedder.journal = v.embedder.journal) : v.AddsAfter P w :=
  ⟨[], by rw [same, List.append_nil], fun early x late none =>
    absurd none.symm (List.append_ne_nil_of_right_ne_nil early (List.cons_ne_nil x late))⟩

theorem of_adds {R : Moment σ → Prop} (adds : u.Adds R w) : u.AddsAfter (fun _ => R) w := by
  obtain ⟨new, journal, each⟩ := adds
  refine ⟨new, journal, fun early x late split => each x ?_⟩
  rw [split]
  exact List.mem_append_right _ List.mem_cons_self

theorem trans (first : u.AddsAfter P v) (rest : v.AddsAfter P w) : u.AddsAfter P w := by
  obtain ⟨new, journal, each⟩ := first
  obtain ⟨new', journal', each'⟩ := rest
  refine ⟨new ++ new', by rw [journal', journal, List.append_assoc], fun early x late split => ?_⟩
  rcases List.append_eq_append_iff.1 split with ⟨more, rfl, same⟩ | ⟨more, same, other⟩
  · have placed := each' more x late same
    rwa [journal, List.append_assoc] at placed
  · cases more with
    | nil =>
      have placed := each' [] x late other.symm
      rwa [journal, List.append_nil, same, List.append_nil] at placed
    | cons y more =>
      obtain ⟨rfl, -⟩ := List.cons.inj other
      exact each early x more same

theorem imp (adds : u.AddsAfter P w) (less : ∀ early x, u.embedder.journal <+: early →
    early ++ [x] <+: w.embedder.journal → P early x → Q early x) : u.AddsAfter Q w := by
  obtain ⟨new, journal, each⟩ := adds
  refine ⟨new, journal, fun early x late split => ?_⟩
  refine less _ x (List.prefix_append _ _) ⟨late, ?_⟩ (each early x late split)
  rw [journal, split]
  simp

theorem note {event : Event}
    (holds : P w.embedder.journal ⟨event, w.embedder.running, w.unrecorded⟩) :
    w.AddsAfter P (w.note event) := by
  refine ⟨[_], rfl, fun early x late split => ?_⟩
  rcases split_concat (show [] ++ [_] = early ++ x :: late from split) with ⟨rfl, rfl, -⟩ | ⟨_, -, none⟩
  · rwa [List.append_nil]
  · exact absurd none.symm (List.append_ne_nil_of_right_ne_nil early (List.cons_ne_nil _ _))

end World.AddsAfter

theorem World.since_split {u v : Recorded σ} {early : List (Moment σ)} {x : Moment σ}
    (begun : u.embedder.journal <+: early) (ongoing : early ++ [x] <+: v.embedder.journal) :
    ∃ before after, u.since v = before ++ x :: after ∧ early = u.embedder.journal ++ before := by
  obtain ⟨before, rfl⟩ := begun
  obtain ⟨after, whole⟩ := ongoing
  refine ⟨before, after, ?_, rfl⟩
  rw [World.since, ← whole]
  simp

theorem World.mem_since {u v : Recorded σ} {early : List (Moment σ)} {x : Moment σ}
    (begun : u.embedder.journal <+: early) (ongoing : early ++ [x] <+: v.embedder.journal) :
    x ∈ u.since v := by
  obtain ⟨before, after, since, -⟩ := World.since_split begun ongoing
  rw [since]
  exact List.mem_append_right _ List.mem_cons_self

/-- One run of an operation, from the world in which it is asked for to the one in which it ends. -/
structure Occasion (σ : Type) where
  operation : Operation
  outcome : Except Signal operation.Result
  first : Recorded σ
  last : Recorded σ
  performs : first.Performs operation outcome last

namespace Occasion

variable {t : Occasion σ} {early : List (Moment σ)} {x : Moment σ}

/-- A moment that comes after others falls into the run of an operation. -/
structure Spans (t : Occasion σ) (early : List (Moment σ)) (x : Moment σ) : Prop where
  begun : t.first.embedder.journal <+: early
  ongoing : early ++ [x] <+: t.last.embedder.journal

/-- The moment is one of the operation itself and not of another that is asked for in it. -/
structure Notes (t : Occasion σ) (early : List (Moment σ)) (x : Moment σ) : Prop
    extends t.Spans early x where
  running : x.running = t.operation :: t.first.embedder.running

structure Ends (t : Occasion σ) (early : List (Moment σ)) (x : Moment σ) : Prop where
  journal : t.last.embedder.journal = early
  event : x.event = .finished t.operation t.outcome
  running : x.running = t.first.embedder.running
  world : x.world = t.last.unrecorded

theorem Spans.since (spans : t.Spans early x) :
    ∃ before after, t.first.since t.last = before ++ x :: after ∧
      early = t.first.embedder.journal ++ before :=
  World.since_split spans.begun spans.ongoing

theorem Spans.mem_since (spans : t.Spans early x) : x ∈ t.first.since t.last :=
  World.mem_since spans.begun spans.ongoing

theorem Notes.isAt (notes : t.Notes early x) (isCall : x.event.call?.isSome) :
    x.isAt (t.first.begin t.operation).embedder.running.length := by
  simp [Moment.isAt, isCall, notes.running, World.begin]

theorem course (t : Occasion σ) (sound : t.first.Sound) :
    Course [] (t.first.begin t.operation) t.last := by
  obtain ⟨h, scripted, result⟩ := t.performs.request
  have within := Operation.request_within scripted.follows sound.ready t.operation
  rwa [result] at within

theorem sampled (t : Occasion σ) {c : ContextId} (there : t.first.contexts.has c) :
    ∃ before e, t.first.embedder.journal = before ++ [e] ∧
      ∃ own, t.first.unrecorded = { e.world with embedder := own } := by
  obtain ⟨before, e, journal, -, same⟩ := t.performs.sampled.resolve_left fun none => none c there
  exact ⟨before, e, journal, same⟩

theorem sound (t : Occasion σ) (each : ∀ e ∈ t.first.embedder.journal, e.world.Sound)
    {c : ContextId} (there : t.first.contexts.has c) : t.first.Sound := by
  obtain ⟨before, e, journal, own, same⟩ := t.sampled there
  refine .of_unrecorded ?_
  rw [same]
  exact (each e (journal ▸ List.mem_append_right _ List.mem_cons_self)).embed own

theorem Spans.above (spans : t.Spans early x) (sound : t.first.Sound) :
    t.operation :: t.first.embedder.running <:+ x.running := by
  obtain ⟨new, journal, each⟩ := (t.course sound).adds_above List.suffix_rfl
  refine each x ?_
  rw [← World.since_append (v := t.first) journal]
  exact spans.mem_since

theorem Spans.grounded (spans : t.Spans early x) :
    t.operation.isGrounded (t.first.begin t.operation) := by
  obtain ⟨h, -, result⟩ := t.performs.request
  refine Decidable.byContradiction fun unknown => ?_
  rw [Operation.request, if_neg unknown] at result
  have same : t.first.begin t.operation = t.last := congrArg Prod.snd result
  have short : t.last.embedder.journal.length ≤ early.length := same ▸ spans.begun.length_le
  have long := spans.ongoing.length_le
  rw [List.length_append, List.length_singleton] at long
  omega

end Occasion

/-- Where a moment comes from in a part of a run: it is one of the part itself or of an operation, and
the end of an operation follows all that the operation has put on record. -/
structure Moment.Arises (running : List Operation) (early : List (Moment σ)) (x : Moment σ) :
    Prop where
  source : x.running = running ∨ ∃ t : Occasion σ, t.Notes early x
  ends : x.event.isEnd → ∃ t : Occasion σ, t.Ends early x

theorem World.AddsAfter.plain {u v : Recorded σ} {running : List Operation}
    (adds : u.Adds (fun x => x.running = running ∧ x.event.isEnd = false) v) :
    u.AddsAfter (Moment.Arises running) v :=
  .imp (.of_adds adds) fun _ _ _ _ ⟨own, inside⟩ =>
    ⟨.inl own, fun ends => nomatch inside.symm.trans ends⟩

theorem Course.occasions {w w' : Recorded σ} (course : Course making w w') :
    w.AddsAfter (Moment.Arises w.embedder.running) w' := by
  -- all that is noted outside the operations is noted on the level of the start
  have noted {u : Recorded σ} (v : Recorded σ) (event : Event) (inside : event.isEnd = false)
      (running : v.embedder.running = u.embedder.running) :
      v.AddsAfter (Moment.Arises u.embedder.running) (v.note event) :=
    .plain (.note v ⟨running, inside⟩)
  induction course with
  | still => exact .of_same rfl
  | change step => exact .plain (step.adds fun _ isPlain _ => ⟨rfl, Event.isEnd_of_isPlain isPlain⟩)
  | trans first _ ih ih' =>
    rw [first.running] at ih'
    exact ih.trans ih'
  | @operation _ w w' o outcome inner _ performs ih =>
    let t : Occasion σ := ⟨o, outcome, w, w', performs⟩
    have inside : w.AddsAfter (Moment.Arises (o :: w.embedder.running)) w' := ih
    have within : w.AddsAfter (Moment.Arises w.embedder.running) w' :=
      inside.imp fun early x begun ongoing arises =>
        ⟨.inr (arises.source.elim (fun own => ⟨t, ⟨⟨begun, ongoing⟩, own⟩⟩) id), arises.ends⟩
    have left : w'.AddsAfter (Moment.Arises w.embedder.running)
        { w' with embedder := { w'.embedder with running := w.embedder.running } } := .of_same rfl
    exact within.trans (left.trans (.note ⟨.inl rfl, fun _ => ⟨t, rfl, rfl, rfl, rfl⟩⟩))
  | @frame _ w w' c f _ _ ih =>
    exact World.AddsAfter.trans ih (.of_same (congrArg Ledger.journal (w'.popFrame_embedder c)))
  | autoload _ _ _ _ _ _ ih => exact World.AddsAfter.trans ih (.of_same rfl)
  | @destructor _ w v w' c o k f _ _ _ retires _ _ ih =>
    have called : v.AddsAfter (Moment.Arises w.embedder.running) _ :=
      noted (v.pushFrame c f) (.called (.destroyObject k c o)) rfl retires.running
    have rest : World.AddsAfter (Moment.Arises w.embedder.running) _ w' := retires.running ▸ ih
    exact .trans (.of_same (congrArg Ledger.journal retires.embedder))
      (called.trans (rest.trans (.of_same (congrArg Ledger.journal (w'.popFrame_embedder c)))))
  | @hook _ w w' c k k' _ _ _ _ outcome inner _ _ ih =>
    have called : w.AddsAfter (Moment.Arises w.embedder.running) _ :=
      noted (w.insertClass c k) (.called (.enterClass k' c)) rfl rfl
    have answered := noted w' (.answered (.enterClass k' c) outcome) rfl inner.running
    have same := w'.journal_leaveHook c (w.classes.get k).lowerName k' outcome
    exact called.trans (ih.trans (answered.trans (.of_same same)))
  | registration _ _ _ _ _ _ ih => exact World.AddsAfter.trans ih (.of_same rfl)
  | attempt _ _ _ _ ih => exact ih
  | @loading _ w u v w' c source _ _ _ before event m loaded after ended ih ih' =>
    have early : w.AddsAfter (Moment.Arises w.embedder.running) u := ih
    have answered := noted u event (Event.isEnd_of_loaded loaded) before.running
    have late : World.AddsAfter (Moment.Arises w.embedder.running) (u.note event) v :=
      (show u.embedder.running = w.embedder.running from before.running) ▸ ih'
    exact early.trans (answered.trans (late.trans
      (.of_same (congrArg Ledger.journal ended.embedder))))
  | creation _ _ _ _ _ ih => exact ih

end ScriptHost
