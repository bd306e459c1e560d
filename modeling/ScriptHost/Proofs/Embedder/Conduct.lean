import ScriptHost.Proofs.Lifecycle.Destruction
import ScriptHost.Proofs.Output.Closure
import ScriptHost.Proofs.Output.Route

set_option autoImplicit false

namespace ScriptHost

open Run

variable {σ α β γ : Type}

def Signal.isStopped : Signal → Bool
  | .failure f => f.isRecoverable
  | _ => false

def endsFairly : Except Signal α → Bool
  | .ok _ => true
  | .error signal => signal.isStopped

/-- How a callback may end in a shutdown. Shutdown functions, destructors and exception handlers may
raise a failure; a destructor leaves the frame that was pushed for it, or another one in its place. -/
def Moment.isFair (c : ContextId) (m : Moment σ) : Bool :=
  match m.event with
  | .answered (.shutDown ..) outcome | .answered (.handleException ..) outcome => endsFairly outcome
  | .answered (.destroyObject ..) outcome => endsFairly outcome && (m.world.context c).depth != 0
  | .answered _ outcome => outcome.isOk
  | _ => true

structure Stretch (σ : Type) where
  context : ContextId
  first : Recorded σ
  last : Recorded σ
  ready : first.Ready [context] (some context)
  fair : ∀ m ∈ first.direct last, m.isFair context

def World.halt (w w' : Recorded σ) : World σ :=
  ((w.direct w').head?.map (·.world)).getD w'.unrecorded

structure World.Yields (t : Stretch σ) (asks : Call → Bool) (raises : Signal → Prop)
    (w : Recorded σ) (outcome : Except Signal α) (w' : Recorded σ) : Prop where
  calls : ∀ m ∈ w.direct w', ∀ call, m.event.call? = some call → asks call
  settled : w.IsSettled t.context → (w.halt w').IsSettled t.context
  raised : ∀ signal, outcome = .error signal → raises signal

structure Run.Obeys (t : Stretch σ) (asks : Call → Bool) (raises : Signal → Prop)
    (m : Run (Ledger σ) α) (w : Recorded σ) : Prop where
  course : Course [t.context] w (m w).2
  yields : Course [t.context] (m w).2 t.last → w.Yields t asks raises (m w).1 (m w).2

namespace Stretch

variable {t : Stretch σ} {u v w : Recorded σ}

def Reaches (t : Stretch σ) (w : Recorded σ) : Prop := Course [t.context] t.first w

theorem Reaches.ready (reached : t.Reaches w) : w.Ready [t.context] (some t.context) :=
  Course.ready reached t.ready

theorem Reaches.trans (reached : t.Reaches v) (course : Course [t.context] v w) : t.Reaches w :=
  Course.trans reached course

theorem Reaches.present (reached : t.Reaches w) : w.contexts.has t.context :=
  reached.ready.present _ rfl

theorem Reaches.within (reached : t.Reaches v) (course : Course [t.context] v w)
    (onward : Course [t.context] w t.last) :
    ∀ m ∈ v.direct w, m ∈ t.first.direct t.last := by
  intro m member
  rw [Course.direct_trans reached (course.trans onward), course.direct_trans onward]
  exact List.mem_append_right _ (List.mem_append_left _ member)

end Stretch

namespace World

variable {u v w : Recorded σ} {c : ContextId}

theorem halt_of_silent (silent : v.direct w = []) : v.halt w = w.unrecorded := by
  simp [halt, silent]

theorem halt_settled (first : (u.halt v).IsSettled c)
    (rest : v.IsSettled c → (v.halt w).IsSettled c) (whole : u.direct w = u.direct v ++ v.direct w) :
    (u.halt w).IsSettled c := by
  cases early : u.direct v with
  | nil =>
    rw [halt_of_silent early] at first
    have same : u.halt w = v.halt w := by simp [halt, whole, early]
    rw [same]
    exact rest first
  | cons m more =>
    have same : u.halt w = u.halt v := by simp [halt, whole, early]
    rw [same]
    exact first

theorem Yields.trans {t : Stretch σ} {asks : Call → Bool} {raises : Signal → Prop}
    {first : Except Signal α} {last : Except Signal β} {outcome : Except Signal γ}
    (early : u.Yields t asks raises first v) (late : v.Yields t asks raises last w)
    (course : Course [t.context] u v) (course' : Course [t.context] v w)
    (raised : ∀ signal, outcome = .error signal → raises signal) :
    u.Yields t asks raises outcome w where
  calls m member := by
    rw [course.direct_trans course'] at member
    exact (List.mem_append.1 member).elim (early.calls m) (late.calls m)
  settled before :=
    halt_settled (early.settled before) late.settled (course.direct_trans course')
  raised := raised

end World

namespace Run.Obeys

variable {t : Stretch σ} {asks : Call → Bool} {raises : Signal → Prop} {w : Recorded σ}

theorem of_silent {m : Run (Ledger σ) α} (course : Course [t.context] w (m w).2)
    (returns : (m w).1.isOk)
    (journal : (m w).2.embedder.journal = w.embedder.journal)
    (keeps : w.IsSettled t.context → (m w).2.IsSettled t.context) : m.Obeys t asks raises w := by
  have silent : w.direct (m w).2 = [] := World.direct_of_same journal
  refine ⟨course, fun _ => ⟨?_, fun settled => ?_, fun signal ended => ?_⟩⟩
  · simp [silent]
  · rw [World.halt_of_silent silent]
    exact keeps settled
  · rw [ended] at returns
    cases returns

theorem congr {m m' : Run (Ledger σ) α} (same : m w = m' w) (obeys : m'.Obeys t asks raises w) :
    m.Obeys t asks raises w := by
  obtain ⟨course, yields⟩ := obeys
  rw [← same] at course yields
  exact ⟨course, yields⟩

theorem pure (a : α) : (Pure.pure a : Run (Ledger σ) α).Obeys t asks raises w :=
  .of_silent (.still w) rfl rfl id

theorem context (c : ContextId) : (Run.context c).Obeys t asks raises w :=
  .of_silent (.still w) rfl rfl id

theorem modifyContext (reached : t.Reaches w) {f : Context → Context}
    (adjusts : ∀ x : Context, x.Adjusts (f x)) :
    (Run.modifyContext t.context f).Obeys t asks raises w := by
  refine .of_silent (.change (.adjust w t.context f adjusts (reached.ready.acts _ rfl))) rfl rfl
    fun settled o member => settled o ?_
  have kept : ((w.updateContext t.context f).context t.context).tracker =
      (w.context t.context).tracker :=
    w.contexts.modify_keeps t.context t.context f Context.tracker fun x =>
      congrArg Context.Holdings.tracker (adjusts x).holdings
  rw [← kept]
  exact member

theorem modifyDiagnostics (reached : t.Reaches w) (f : Diagnostics → Diagnostics) :
    (Run.modifyDiagnostics t.context f).Obeys t asks raises w :=
  .modifyContext reached fun _ => ⟨rfl, rfl, rfl, .same, .same, List.prefix_rfl⟩

theorem mono {m : Run (Ledger σ) α} {asks' : Call → Bool} {raises' : Signal → Prop}
    (obeys : m.Obeys t asks raises w) (wider : ∀ call, asks call → asks' call)
    (more : ∀ signal, raises signal → raises' signal) : m.Obeys t asks' raises' w where
  course := obeys.course
  yields onward :=
    have within := obeys.yields onward
    { settled := within.settled
      calls := fun m member call same => wider call (within.calls m member call same)
      raised := fun signal same => more signal (within.raised signal same) }

theorem bind {m : Run (Ledger σ) α} {f : α → Run (Ledger σ) β} (reached : t.Reaches w)
    (first : m.Obeys t asks raises w)
    (rest : ∀ a v, m w = (.ok a, v) → t.Reaches v → (f a).Obeys t asks raises v) :
    (m >>= f).Obeys t asks raises w := by
  obtain ⟨course, yields⟩ := first
  rcases result : m w with ⟨signal | a, v⟩
  · rw [result] at course yields
    have whole : (m >>= f) w = (.error signal, v) := by rw [bind_apply, result]
    constructor
    · rw [whole]
      exact course
    · rw [whole]
      intro onward
      have within := yields onward
      exact ⟨within.calls, within.settled, fun s same => within.raised s (by cases same; rfl)⟩
  · rw [result] at course yields
    obtain ⟨course', yields'⟩ := rest a v result (reached.trans course)
    constructor
    · rw [bind_ok result]
      exact course.trans course'
    · rw [bind_ok result]
      intro onward
      have late := yields' onward
      exact (yields (course'.trans onward)).trans late course course' late.raised

theorem ensuring {body : Run (Ledger σ) α} {after : Run (Ledger σ) Unit} (reached : t.Reaches w)
    (first : body.Obeys t asks raises w)
    (rest : ∀ v, t.Reaches v → after.Obeys t asks raises v) :
    (Run.ensuring body after).Obeys t asks raises w := by
  obtain ⟨course, yields⟩ := first
  obtain ⟨course', yields'⟩ := rest _ (reached.trans course)
  have ended := ensuring_apply body after w
  constructor
  · rw [ended]
    exact course.trans course'
  · intro onward
    rw [ended] at onward ⊢
    have early := yields (course'.trans onward)
    have late := yields' onward
    refine early.trans late course course' fun signal raised => ?_
    -- a signal of what is done at the end takes the place of one of the body
    unfold Run.ensuring at raised
    rcases result : body w with ⟨outcome, v⟩
    rw [result] at raised early late
    dsimp only at raised early late
    rcases result' : after v with ⟨signal' | _, v'⟩ <;> rw [result'] at raised late
    · cases raised
      exact late.raised _ rfl
    · exact early.raised _ raised

theorem guard {body : Run (Ledger σ) Unit} (inner : body.Obeys t asks (·.isStopped) w) :
    (Boundary.guard body).Obeys t asks raises w := by
  have same := Boundary.guard_apply body w
  obtain ⟨course, yields⟩ := inner
  constructor
  · rw [same]
    exact course
  · intro onward
    rw [same] at onward ⊢
    have within := yields onward
    refine ⟨within.calls, within.settled, fun signal raised => ?_⟩
    have stopped := within.raised
    unfold Boundary.guard at raised
    split at raised
    next => cases raised
    next f v result =>
      have recovers : f.isRecoverable := stopped (.failure f) (by rw [result])
      rw [if_pos recovers] at raised
      cases raised
    next unstopped result =>
      cases raised
      have recovers := stopped signal (by rw [result])
      cases signal with
      | failure f => exact absurd rfl (unstopped f)
      | value | exhausted => cases recovers

theorem answer {h : Host (Ledger σ)} (nests : h.Nests) (reached : t.Reaches w) (call : Call)
    (plain : call.isPlain) (asked : asks call)
    (fair : ∀ (m : Moment σ) signal, m.isFair t.context → m.event = .answered call (.error signal) →
      raises signal) : (h.answer call).Obeys t asks raises w := by
  have course := nests.follows.answer call plain _ w reached.ready
  obtain ⟨outcome, v, answered, -, direct⟩ := nests.answered call reached.ready
  refine ⟨course, fun onward => ?_⟩
  have within := reached.within course onward
  rw [answered] at within ⊢
  dsimp only at within ⊢
  rw [direct] at within
  refine ⟨?_, fun settled => ?_, ?_⟩
  · rw [direct]
    intro m member call' same
    cases (Event.call?_of_pair member).symm.trans same
    exact asked
  · rw [World.halt, direct]
    exact settled
  · rintro signal rfl
    have answered := within _ (List.mem_cons_of_mem _ List.mem_cons_self)
    exact fair _ signal (t.fair _ answered) rfl

end Run.Obeys

theorem Run.isClosed_obeys (t : Stretch σ) (asks : Call → Bool) (raises : Signal → Prop) :
    Run.IsClosed t.context fun α (m : Run (Ledger σ) α) =>
      ∀ w, t.Reaches w → m.Obeys t asks raises w where
  pure a _ _ := .pure a
  bind first rest w reached := .bind reached (first w reached) fun a v _ later => rest a v later
  context _ _ := .context t.context
  modifyStack _ becomes _ reached :=
    .modifyContext reached fun x => ⟨rfl, rfl, rfl, becomes x.output, .same, List.prefix_rfl⟩
  onSink f w reached :=
    .of_silent (Output.onSink_follows t.context f _ w reached.ready) rfl rfl id

end ScriptHost
