import ScriptHost.Proofs.Calls.Balance

set_option autoImplicit false

namespace ScriptHost

open Run

variable {σ : Type} {making : List ContextId} {home : Option ContextId}

def Event.call? : Event → Option Call
  | .called call | .answered call _ => some call
  | .finished .. => none

theorem Event.call?_of_pair {call : Call} {outcome : Except Signal call.Answer}
    {running running' : List Operation} {w w' : World σ} {m : Moment σ}
    (member : m ∈ [⟨.called call, running, w⟩, ⟨.answered call outcome, running', w'⟩]) :
    m.event.call? = some call := by
  rcases List.mem_cons.1 member with rfl | last
  · rfl
  · rw [List.mem_singleton.1 last]
    rfl

def Call.isBody : Call → Bool
  | .runModule .. => true
  | _ => false

def Moment.isBody (m : Moment σ) : Bool := m.event.call?.any Call.isBody

def Moment.isAt (level : Nat) (m : Moment σ) : Bool :=
  m.event.call?.isSome && m.running.length == level

namespace World

variable {u v w : Recorded σ}

def direct (w w' : Recorded σ) : List (Moment σ) :=
  (w.since w').filter (·.isAt w.embedder.running.length)

theorem since_append {new : List (Moment σ)}
    (journal : w.embedder.journal = v.embedder.journal ++ new) : v.since w = new := by
  rw [since, journal, List.drop_left]

theorem since_trans (first : u.embedder.journal <+: v.embedder.journal)
    (rest : v.embedder.journal <+: w.embedder.journal) : u.since w = u.since v ++ v.since w := by
  obtain ⟨early, same⟩ := first
  obtain ⟨late, same'⟩ := rest
  have whole : w.embedder.journal = u.embedder.journal ++ (early ++ late) := by
    rw [← same', ← same, List.append_assoc]
  rw [since_append whole, since_append same.symm, since_append same'.symm]

theorem direct_trans (first : u.embedder.journal <+: v.embedder.journal)
    (rest : v.embedder.journal <+: w.embedder.journal)
    (running : v.embedder.running = u.embedder.running) :
    u.direct w = u.direct v ++ v.direct w := by
  unfold direct
  rw [since_trans first rest, List.filter_append, running]

theorem direct_split {before after : List (Moment σ)} {m : Moment σ}
    (split : v.direct w = before ++ m :: after) :
    ∃ early late, v.since w = early ++ m :: late ∧
      early.filter (·.isAt v.embedder.running.length) = before := by
  obtain ⟨early, rest, whole, first, last⟩ := List.filter_eq_append_iff.1 split
  obtain ⟨skipped, late, same, none, -, -⟩ := List.filter_eq_cons_iff.1 last
  refine ⟨early ++ skipped, late, by rw [whole, same, List.append_assoc], ?_⟩
  rw [List.filter_append, first, List.filter_eq_nil_iff.2 none, List.append_nil]

theorem direct_of_same (same : w.embedder.journal = v.embedder.journal) : v.direct w = [] := by
  unfold direct
  rw [since_append (same.trans (List.append_nil _).symm), List.filter_nil]

theorem direct_congr {u' w' : Recorded σ} (start : u'.embedder = u.embedder)
    (journal : w'.embedder.journal = w.embedder.journal) : u'.direct w' = u.direct w := by
  simp only [direct, since, start, journal]

theorem direct_note (w : Recorded σ) {event : Event} (isCall : event.call?.isSome) :
    w.direct (w.note event) = [⟨event, w.embedder.running, w.unrecorded⟩] := by
  unfold direct
  rw [since_append (v := w) (w := w.note event) rfl]
  simp [Moment.isAt, isCall]

end World

theorem Course.direct_trans {u v w : Recorded σ} (first : Course making u v)
    (rest : Course making v w) : u.direct w = u.direct v ++ v.direct w :=
  World.direct_trans first.journal rest.journal first.running

theorem Course.adds_above {w w' : Recorded σ} (course : Course making w w') {below : List Operation}
    (above : below <:+ w.embedder.running) : w.Adds (below <:+ ·.running) w' := by
  induction course with
  | still => exact .of_same rfl
  | change step => exact step.adds fun _ _ _ => above
  | trans first _ ih ih' => exact (ih above).trans (ih' (first.running ▸ above))
  | operation o outcome inner _ _ ih =>
    have within := ih (above.trans (List.suffix_cons _ _))
    exact World.Adds.finish within above
  | frame c f _ _ ih => exact World.Adds.popFrame (ih above) c
  | autoload _ _ _ _ _ _ ih => exact ih above
  | @destructor _ _ v _ c o k f _ _ _ retires _ _ ih =>
    have above' : below <:+ v.embedder.running := retires.running ▸ above
    exact (World.Adds.of_event (v := v.pushFrame c f) retires.embedder above (ih above')).popFrame c
  | @hook _ w w' c k k' _ _ _ _ outcome inner _ _ ih =>
    have within := World.Adds.of_event (v := w.insertClass c k) rfl above (ih above)
    refine within.leaveHook ?_
    rw [inner.running]
    exact above
  | registration _ _ _ _ _ _ ih => exact ih above
  | attempt _ _ _ _ ih => exact ih above
  | @loading _ w u v w' c source _ _ _ before event m _ after ended ih ih' =>
    have early : w.Adds (below <:+ ·.running) u := ih above
    have locked : below <:+ u.embedder.running := by
      rw [before.running]
      exact above
    have late := World.Adds.of_event (u := u) rfl locked (ih' locked)
    exact early.trans (late.trans (.of_same (congrArg Ledger.journal ended.embedder)))
  | creation _ _ _ _ _ ih => exact ih above

theorem Course.direct_operation {w v : Recorded σ} {o : Operation} (inner : Course making (w.begin o) v)
    (outcome : Except Signal o.Result) :
    w.direct (v.finish w.embedder.running o outcome) = [] := by
  have within : (w.begin o).Adds (o :: w.embedder.running <:+ ·.running) v :=
    inner.adds_above List.suffix_rfl
  obtain ⟨new, journal, above⟩ := within
  -- the end of the operation is on record at the level of the start, but is not a callback
  have whole : (v.finish w.embedder.running o outcome).embedder.journal =
      w.embedder.journal ++ (new ++ [⟨.finished o outcome, w.embedder.running, v.unrecorded⟩]) := by
    rw [← List.append_assoc]
    exact congrArg (· ++ [_]) journal
  unfold World.direct
  rw [World.since_append whole, List.filter_eq_nil_iff]
  intro m member at_level
  rcases List.mem_append.1 member with inside | last
  · have deeper := (above m inside).length_le
    simp only [Moment.isAt, Bool.and_eq_true, beq_iff_eq, List.length_cons] at at_level deeper
    omega
  · rw [List.mem_singleton.1 last] at at_level
    cases at_level

theorem Code.direct_run {ρ : Type} {h : Host (Ledger σ)} (scripted : h.IsScripted)
    (code : Code σ ρ) {w : Recorded σ} (ready : w.Ready making home) : w.direct (code.run h w).2 = [] := by
  induction code generalizing w with
  | done outcome => exact World.direct_of_same rfl
  | look next ih => exact ih w.unrecorded ready
  | setOwn own next ih =>
    have step : Course making w (w.setOwn own) := .change (.setOwn w own)
    exact ih (step.ready ready)
  | ask o next ih =>
    rcases asked : o.request h (w.begin o) with ⟨outcome, v⟩
    have inner := Operation.request_within scripted.follows ready o
    rw [asked] at inner
    -- the operation itself is on record deeper, what comes after it is up to the rest of the code
    have ended : (v.finish w.embedder.running o outcome).Ready making home :=
      ready.later ((inner.sound (ready.sound.begin o)).finish _ o outcome)
        ((w.extends_begin o).trans (inner.extends.trans (v.extends_finish _ o outcome))) rfl
    have rest := (next outcome).run_course scripted.follows scripted ended (World.isSampled_note _ _)
    have before : w.embedder.journal <+:
        (v.finish w.embedder.running o outcome).embedder.journal :=
      inner.journal.trans (List.prefix_append _ _)
    rw [Code.run, asked]
    dsimp only
    rw [World.direct_trans before rest.journal rfl, inner.direct_operation, ih _ ended]
    rfl

def Host.Nests (h : Host (Ledger σ)) : Prop :=
  ∀ call, ∃ body : Run (Ledger σ) call.Answer, call.Follows body ∧
    h.answer call = call.recorded body ∧
    ∀ w : Recorded σ, w.Sound →
      (w.note (.called call)).direct (body (w.note (.called call))).2 = []

theorem Host.Nests.follows {h : Host (Ledger σ)} (nests : h.Nests) : h.Follows := by
  intro call
  obtain ⟨body, inner, same, -⟩ := nests call
  exact ⟨body, inner, same⟩

theorem Script.host_nests (s : Script σ) (depth : Nat) : (s.host depth).Nests := by
  induction depth with
  | zero =>
    intro call
    exact ⟨Run.exhausted, fun _ _ _ _ => .still _, Host.answer_ofCalls .., fun _ _ =>
      World.direct_of_same rfl⟩
  | succ depth ih =>
    have scripted := s.host_scripted depth
    intro call
    refine ⟨_, fun making home w ready => ?_, Host.answer_ofCalls .., fun w sound => ?_⟩
    · exact (s.code call).run_course ih.follows scripted (ready.note _) (w.isSampled_note _)
    · exact (s.code call).direct_run scripted (sound.note _).ready

theorem Host.IsScripted.nests {h : Host (Ledger σ)} (scripted : h.IsScripted) : h.Nests := by
  obtain ⟨s, depth, rfl⟩ := scripted
  exact s.host_nests depth

theorem Host.Nests.answered {h : Host (Ledger σ)} (nests : h.Nests) (call : Call) {w : Recorded σ}
    (ready : w.Ready making home) :
    ∃ outcome v, h.answer call w = (outcome, v.note (.answered call outcome)) ∧
      Course making (w.note (.called call)) v ∧
      w.direct (v.note (.answered call outcome)) =
        [⟨.called call, w.embedder.running, w.unrecorded⟩,
          ⟨.answered call outcome, w.embedder.running, v.unrecorded⟩] := by
  obtain ⟨body, inner, same, quiet⟩ := nests call
  have course := inner making home w ready
  have nothing := quiet w ready.sound
  rcases result : body (w.note (.called call)) with ⟨outcome, v⟩
  rw [result] at course nothing
  have called : w.embedder.journal <+: (w.note (.called call)).embedder.journal :=
    List.prefix_append _ _
  have answered : v.embedder.journal <+: (v.note (.answered call outcome)).embedder.journal :=
    List.prefix_append _ _
  refine ⟨outcome, v, ?_, course, ?_⟩
  · rw [same, Call.recorded, result]
  · rw [World.direct_trans called (course.journal.trans answered) rfl,
      World.direct_trans course.journal answered course.running, World.direct_note _ rfl, nothing,
      World.direct_note _ rfl, course.running]
    rfl

/-- A computation that runs the body of no module by itself. -/
structure Run.LacksBody {α : Type} (c : ContextId) (m : Run (Ledger σ) α) (w : Recorded σ) :
    Prop where
  ready : (m w).2.Ready [c] (some c)
  journal : w.embedder.journal <+: (m w).2.embedder.journal
  running : (m w).2.embedder.running = w.embedder.running
  bodiless : ∀ e ∈ w.direct (m w).2, e.isBody = false

namespace Run.LacksBody

variable {α β : Type} {c : ContextId} {w : Recorded σ}

theorem of_course {m : Run (Ledger σ) α} (ready : w.Ready [c] (some c))
    (course : Course [c] w (m w).2) (bodiless : ∀ e ∈ w.direct (m w).2, e.isBody = false) :
    m.LacksBody c w :=
  ⟨course.ready ready, course.journal, course.running, bodiless⟩

theorem of_silent {m : Run (Ledger σ) α} (ready : w.Ready [c] (some c))
    (course : Course [c] w (m w).2) (silent : (m w).2.embedder.journal = w.embedder.journal) :
    m.LacksBody c w :=
  .of_course ready course (by simp [World.direct_of_same silent])

theorem pure (ready : w.Ready [c] (some c)) (a : α) :
    (Pure.pure a : Run (Ledger σ) α).LacksBody c w := .of_silent ready (.still w) rfl

theorem congr {m m' : Run (Ledger σ) α} (same : m w = m' w) (lacks : m'.LacksBody c w) :
    m.LacksBody c w := by
  obtain ⟨ready, journal, running, bodiless⟩ := lacks
  rw [← same] at ready journal running bodiless
  exact ⟨ready, journal, running, bodiless⟩

theorem bind {m : Run (Ledger σ) α} {f : α → Run (Ledger σ) β} (first : m.LacksBody c w)
    (rest : ∀ a v, m w = (.ok a, v) → v.Ready [c] (some c) → (f a).LacksBody c v) :
    (m >>= f).LacksBody c w := by
  obtain ⟨ready, journal, running, bodiless⟩ := first
  rcases result : m w with ⟨signal | a, v⟩ <;> rw [result] at ready journal running bodiless
  · have whole : (m >>= f) w = (.error signal, v) := by rw [bind_apply, result]
    constructor <;> rw [whole]
    · exact ready
    · exact journal
    · exact running
    · exact bodiless
  · obtain ⟨ready', journal', running', bodiless'⟩ := rest a v result ready
    constructor <;> rw [bind_ok result]
    · exact ready'
    · exact journal.trans journal'
    · exact running'.trans running
    · rw [World.direct_trans journal journal' running]
      exact fun e member => (List.mem_append.1 member).elim (bodiless e) (bodiless' e)

theorem answer {h : Host (Ledger σ)} (nests : h.Nests) (ready : w.Ready [c] (some c)) {call : Call}
    (other : call.isBody = false) : (h.answer call).LacksBody c w := by
  obtain ⟨outcome, v, answered, course, direct⟩ := nests.answered call ready
  have within := (course.ready (ready.note _)).note (.answered call outcome)
  have journal : w.embedder.journal <+: (v.note (.answered call outcome)).embedder.journal :=
    (List.prefix_append _ _).trans (course.journal.trans (List.prefix_append _ _))
  constructor <;> rw [answered]
  · exact within
  · exact journal
  · exact course.running
  · dsimp only
    rw [direct]
    intro e member
    rw [Moment.isBody, Event.call?_of_pair member]
    exact other

end Run.LacksBody

def Run.IsBodiless {α : Type} (c : ContextId) (m : Run (Ledger σ) α) : Prop :=
  ∀ w : Recorded σ, w.Ready [c] (some c) → m.LacksBody c w

namespace Run.IsBodiless

variable {α β : Type} {c : ContextId}

theorem of_silent {m : Run (Ledger σ) α} (follows : m.Follows (some c))
    (silent : ∀ w, (m w).2.embedder.journal = w.embedder.journal) : IsBodiless c m :=
  fun w ready => .of_silent ready (follows [c] w ready) (silent w)

theorem pure (a : α) : IsBodiless c (Pure.pure a : Run (Ledger σ) α) := fun _ ready => .pure ready a

theorem bind {m : Run (Ledger σ) α} {f : α → Run (Ledger σ) β} (first : IsBodiless c m)
    (rest : ∀ a, IsBodiless c (f a)) : IsBodiless c (m >>= f) := fun w ready =>
  .bind (first w ready) fun a v _ later => rest a v later

theorem answer {h : Host (Ledger σ)} (nests : h.Nests) (call : Call)
    (other : call.isBody = false) : IsBodiless c (h.answer call) := fun _ ready =>
  .answer nests ready other

end Run.IsBodiless

end ScriptHost
