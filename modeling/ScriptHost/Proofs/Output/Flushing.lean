import Mathlib.Data.Finset.Card
import Mathlib.Data.Finset.Range
import ScriptHost.Proofs.Boundary.Classification
import ScriptHost.Proofs.Embedder.Conduct

set_option autoImplicit false

namespace ScriptHost

open Run

variable {σ τ : Type}

namespace Output

variable {o p : Output} {n : Nat}

def openBelow (o : Output) (n : Nat) : Nat :=
  ((Finset.range n).filter fun i => (o.buffer ⟨i⟩).isClosed = false).card

theorem openBelow_le (o : Output) (n : Nat) : o.openBelow n ≤ n := by
  have bound := Finset.card_filter_le (Finset.range n) fun i => (o.buffer ⟨i⟩).isClosed = false
  rwa [Finset.card_range] at bound

theorem filter_open_subset (closed : ∀ b, (o.buffer b).isClosed → (p.buffer b).isClosed) :
    ((Finset.range n).filter fun i => (p.buffer ⟨i⟩).isClosed = false) ⊆
      (Finset.range n).filter fun i => (o.buffer ⟨i⟩).isClosed = false := by
  intro i member
  rw [Finset.mem_filter] at member ⊢
  refine ⟨member.1, ?_⟩
  cases before : (o.buffer ⟨i⟩).isClosed with
  | false => rfl
  | true => exact absurd (closed _ before) (by simp [member.2])

theorem openBelow_lt (closed : ∀ b, (o.buffer b).isClosed → (p.buffer b).isClosed) {b : BufferId}
    (known : b.index < n) (before : (o.buffer b).isClosed = false)
    (after : (p.buffer b).isClosed) : p.openBelow n < o.openBelow n := by
  apply Finset.card_lt_card
  refine ⟨filter_open_subset closed, fun back => ?_⟩
  have inside : b.index ∈ (Finset.range n).filter fun i => (o.buffer ⟨i⟩).isClosed = false := by
    simp [known, before]
  have there := (Finset.mem_filter.1 (back inside)).2
  exact absurd after (by simp [there])

def places (o : Output) : Nat := o.stack.length + o.vacated.length

def burden (o : Output) : Nat := o.buffers.size * (o.places + 1)

end Output

namespace World

variable {w : World τ} {c : ContextId}

def load (w last : World τ) (c : ContextId) : Nat :=
  (w.output c).openBelow (last.output c).buffers.size * ((last.output c).places + 1) + w.height c

theorem load_le (w last : World τ) (c : ContextId) :
    w.load last c ≤ (last.output c).burden + w.height c :=
  Nat.add_le_add_right (Nat.mul_le_mul_right _ (Output.openBelow_le _ _)) _

end World

namespace Output

theorem close_cases (h : Host τ) (c : ContextId) (b : BufferId) (w : World τ) :
    (close h c (.buffer b) w).2 = w ∨
    (w.output c).buffers.has b ∧ ((w.output c).buffer b).isClosed = false ∧
      close h c (.buffer b) w = drainBuffer h c b { final := true }
        (w.updateOutput c (·.modify b fun x => { x with isClosed := true })) := by
  rw [close, bind_ok (bufferOf_apply w c b)]
  cases closed : ((w.output c).buffer b).isClosed with
  | true => exact .inl rfl
  | false =>
    by_cases known : (w.output c).buffers.has b
    · exact .inr ⟨known, rfl, rfl⟩
    left
    have empty : (w.output c).buffer b = default := Pool.get_of_not_has _ known
    rw [if_neg Bool.false_ne_true, bind_ok (modifyBuffer_apply w c b _),
      w.updateOutput_unknown c known, drainBuffer, bind_ok (bufferOf_apply w c b), emit,
      bind_ok (bufferOf_apply w c b), bind_ok (modifyBuffer_apply w c b _),
      w.updateOutput_unknown c known, empty]
    rfl

theorem stop_none {h : Host τ} {c : ContextId} {w v : World τ}
    (stopped : stop h c w = (.ok none, v)) : v = w ∧ (w.output c).stack = [] := by
  rw [stop, bind_ok (context_apply w c)] at stopped
  cases top : (w.context c).output.stack with
  | nil =>
    rw [top] at stopped
    cases stopped
    exact ⟨rfl, top⟩
  | cons b below =>
    rw [top] at stopped
    obtain ⟨_, _, _, rest⟩ := of_bind_ok stopped
    obtain ⟨_, _, _, last⟩ := of_bind_ok rest
    cases last

theorem stopAll_empties {h : Host τ} {c : ContextId} {rounds : Nat} {w v : World τ}
    (returned : stopAll h c rounds w = (.ok (), v)) : (v.output c).stack = [] := by
  induction rounds generalizing w with
  | zero => cases returned
  | succ rounds ih =>
    obtain ⟨removed, u, stopped, rest⟩ := of_bind_ok returned
    cases removed with
    | some b => exact ih rest
    | none =>
      cases rest
      obtain ⟨rfl, empty⟩ := stop_none stopped
      exact empty

theorem flushAll_closes {h : Host τ} {c : ContextId} {w v : World τ}
    (returned : flushAll h c w = (.ok (), v)) (known : v.contexts.has c) :
    (v.output c).stack = [] ∧ (v.output c).isRootClosed = true := by
  rw [flushAll, bind_ok (context_apply w c)] at returned
  obtain ⟨_, u, stopped, rest⟩ := of_bind_ok returned
  obtain ⟨_, _, closed, last⟩ := of_bind_ok rest
  cases last
  have empty := stopAll_empties stopped
  rw [close, bind_ok (context_apply u c)] at closed
  cases before : (u.context c).output.isRootClosed with
  | true =>
    rw [before] at closed
    cases closed
    exact ⟨empty, before⟩
  | false =>
    rw [before, if_neg Bool.false_ne_true, bind_ok (modifyStack_apply u c _)] at closed
    have contexts : v.contexts = (u.updateOutput c fun o => { o with isRootClosed := true }).contexts :=
      congrArg (fun r => World.contexts r.2) closed.symm
    have there : u.contexts.has c := by
      rw [contexts] at known
      exact (u.contexts.has_modify c c _).symm.trans known
    have output : v.output c = { u.output c with isRootClosed := true } := by
      rw [World.output, World.context, contexts]
      exact World.output_updateOutput there _
    rw [output]
    exact ⟨empty, rfl⟩

section Stretch

variable {t : Stretch σ} {h : Host (Ledger σ)} (nests : h.Nests) {asks : Call → Bool}
  (filters : ∀ k chunk mode, asks (.filterOutput k t.context chunk mode))
  {raises : Signal → Prop} {w v : Recorded σ}
include nests filters

theorem filterOutput_obeys (k : Callback) (chunk : Bytes) (mode : OutputMode)
    (reached : t.Reaches w) :
    (h.filterOutput k t.context chunk mode).Obeys t asks raises w := by
  apply Run.Obeys.answer nests reached (.filterOutput k t.context chunk mode) rfl (filters _ _ _)
  intro m signal fair same
  simp [Moment.isFair, same, Except.isOk, Except.toBool] at fair

theorem close_obeys (level : Level) (reached : t.Reaches w) :
    (close h t.context level).Obeys t asks raises w :=
  close_closed (Run.isClosed_obeys t asks raises)
    (fun k chunk mode _ => filterOutput_obeys nests filters k chunk mode) level w reached

theorem stop_obeys (reached : t.Reaches w) : (stop h t.context).Obeys t asks raises w := by
  refine .bind reached (.context _) fun x v _ reached => ?_
  split
  next => exact .pure _
  next b below _ =>
    have resized : (modifyStack t.context (·.resize below.length)).Obeys t asks raises v :=
      .modifyContext reached fun x => ⟨rfl, rfl, rfl, .resized _, .same, List.prefix_rfl⟩
    refine .bind reached resized fun _ u _ reached => ?_
    exact .bind reached (close_obeys nests filters _ reached) fun _ _ _ _ => .pure _

omit filters in
theorem close_lowers {b : BufferId} {last : Recorded σ} {c : ContextId}
    {outcome : Except Signal (Option OutputError)} (ready : w.Ready [c] (some c))
    (closed : close h c (.buffer b) w = (outcome, v)) (onward : v.Extends last) :
    v = w ∨ (v.output c).openBelow (last.output c).buffers.size <
      (w.output c).openBelow (last.output c).buffers.size := by
  rcases close_cases h c b w with same | ⟨there, opened, same⟩
  · left
    rwa [closed] at same
  right
  rw [closed] at same
  have known := ready.present c rfl
  have changed := World.output_updateOutput known (·.modify b fun x => { x with isClosed := true })
  have shut : Course [c] w (w.updateOutput c (·.modify b fun x => { x with isClosed := true })) :=
    .change (.adjust w c _ (fun x => ⟨rfl, rfl, rfl, .used b _ (fun _ _ => rfl) fun _ => rfl, .same,
      List.prefix_rfl⟩) (ready.acts c rfl))
  have drained := (drainBuffer_follows nests.follows c b { final := true }).course
    (shut.ready ready) same.symm
  have known' := (shut.extends.contexts c known).1
  -- once it is marked, the buffer stays closed, and none is opened again below the final size
  have before := ((shut.trans drained).extends.contexts c known).2.output
  have after := (drained.extends.contexts c known').2.output
  have final := (onward.contexts c (drained.extends.contexts c known').1).2.output
  have marked : ((v.output c).buffer b).isClosed := by
    apply after.closed b
    show ((World.output _ c).buffer b).isClosed
    rw [changed, buffer_modify_self _ _ there]
  have small : b.index < (last.output c).buffers.size :=
    Nat.lt_of_lt_of_le ((Pool.has_iff _ _).1 there) (Nat.le_trans before.size final.size)
  exact openBelow_lt before.closed small opened marked

omit filters in
theorem stop_lowers {b : BufferId} {last : Recorded σ} {c : ContextId}
    (ready : w.Ready [c] (some c))
    (stopped : stop h c w = (.ok (some b), v)) (onward : v.Extends last) :
    v.load last c < w.load last c := by
  have known := ready.present c rfl
  rw [stop, bind_ok (context_apply w c)] at stopped
  cases top : (w.context c).output.stack with
  | nil =>
    rw [top] at stopped
    cases stopped
  | cons d below =>
    rw [top] at stopped
    dsimp only at stopped
    rw [bind_ok (modifyStack_apply w c _)] at stopped
    obtain ⟨_, v', closed, rest⟩ := of_bind_ok stopped
    cases rest
    have tall : w.height c = below.length + 1 := congrArg List.length top
    have low := World.height_resize (w := w) top
    have resized := World.output_updateOutput known (·.resize below.length)
    have course : Course [c] w (w.updateOutput c (·.resize below.length)) :=
      .change (.adjust w c _ (fun x => ⟨rfl, rfl, rfl, .resized _, .same, List.prefix_rfl⟩)
        (ready.acts c rfl))
    have same : ((w.updateOutput c (·.resize below.length)).output c).openBelow
        (last.output c).buffers.size = (w.output c).openBelow (last.output c).buffers.size := by
      rw [resized]
      rfl
    unfold World.load
    rcases close_lowers nests (course.ready ready) closed onward with rfl | fewer
    · -- nothing is called, and one buffer less is in use
      rw [same]
      omega
    · -- one buffer less is open, and no more are in use than there are places
      rw [same] at fewer
      have there := (close_follows nests.follows c (.buffer b)).course (course.ready ready) closed
      have final := (onward.contexts c ((course.trans there).extends.contexts c known).1).2.output
      have high : v.height c ≤ (last.output c).places :=
        Nat.le_trans (Nat.le_add_right _ _) final.places
      have product : ((v.output c).openBelow (last.output c).buffers.size + 1) *
          ((last.output c).places + 1) ≤
          (w.output c).openBelow (last.output c).buffers.size * ((last.output c).places + 1) :=
        Nat.mul_le_mul_right _ fewer
      rw [Nat.add_mul, Nat.one_mul] at product
      omega

theorem stopAll_obeys {rounds : Nat} (reached : t.Reaches w)
    (enough : w.load t.last t.context < rounds) :
    (stopAll h t.context rounds).Obeys t asks raises w := by
  -- the load falls with every buffer, though it counts places up to the end of the stretch
  induction rounds generalizing w with
  | zero => exact absurd enough (Nat.not_lt_zero _)
  | succ rounds ih =>
    refine .bind reached (stop_obeys nests filters reached) fun removed v stopped reached' => ?_
    cases removed with
    | none => exact .pure _
    | some b =>
      have course := stopAll_follows nests.follows t.context rounds _ v reached'.ready
      refine ⟨course, fun onward => ?_⟩
      have lower := stop_lowers nests reached.ready stopped (course.trans onward).extends
      exact (ih reached' (by omega)).yields onward

theorem flushAll_obeys (patient : (t.last.output t.context).burden ≤ h.patience)
    (reached : t.Reaches w) : (flushAll h t.context).Obeys t asks raises w := by
  unfold flushAll
  have enough : w.load t.last t.context <
      (w.context t.context).output.stack.length + 1 + h.patience := by
    have bound := w.load_le t.last t.context
    have height : w.height t.context = (w.context t.context).output.stack.length := rfl
    omega
  refine .bind reached (.context _) fun x v same reached => ?_
  cases same
  refine .bind reached (stopAll_obeys nests filters reached enough) fun _ u _ reached => ?_
  exact .bind reached (close_obeys nests filters .root reached) fun _ _ _ _ => .pure _

end Stretch

end Output

end ScriptHost
