import ScriptHost.Proofs.Output.Conservation

set_option autoImplicit false

namespace ScriptHost

variable {τ : Type}

namespace Sink

variable {s s' : Sink} {text : Bytes}

def unflushed (s : Sink) : Bytes :=
  s.journal.foldl (fun taken event =>
    match event with
    | .wrote text => taken ++ text
    | .flushed => []) []

theorem Gains.contents (gains : s.Gains s' text) : s'.contents = s.contents ++ text := by
  obtain ⟨parts, rfl, rfl⟩ := gains
  simp [Sink.contents, List.flatMap_map]

theorem Gains.unflushed (gains : s.Gains s' text) : s'.unflushed = s.unflushed ++ text := by
  obtain ⟨parts, rfl, rfl⟩ := gains
  unfold Sink.unflushed
  rw [List.foldl_append]
  generalize s.journal.foldl _ [] = taken
  induction parts generalizing taken with
  | nil => simp
  | cons part parts ih => simp [ih]

theorem unflushed_flush (canFlush : s.canFlush) (keeps : s.discards = false) :
    s.flush.2.unflushed = [] := by
  simp [flush, record, canFlush, keeps, unflushed]

theorem Gains.canFlush (gains : s.Gains s' text) : s'.canFlush = s.canFlush := by
  obtain ⟨parts, -, rfl⟩ := gains
  rfl

end Sink

namespace World

def staleAll (h : Host τ) (c : ContextId) : Nat → World τ → Bytes
  | 0, _ => []
  | count + 1, w => staleAll h c count (Output.stop h c w).2 ++ w.stale c

def IsOpen (w : World τ) (c : ContextId) : Prop :=
  ∀ b ∈ (w.output c).stack, ((w.output c).buffer b).isClosed = false

theorem IsOpen.stale {w : World τ} {c : ContextId} (isOpen : w.IsOpen c) : w.stale c = [] := by
  unfold World.stale
  split
  next => rfl
  next b below stack => simp [isOpen b (by simp [stack])]

end World

namespace Output

open Run World

variable {w : World τ} {c : ContextId}

theorem stopAll_piles (h : Host τ) (pile : w.HasPile c) (rounds : Nat)
    (enough : (w.output c).stack.length < rounds) :
    ∃ w', stopAll h c rounds w = (.ok (), w') ∧ w.Advances w' c ∧ (w'.output c).stack = [] ∧
      w'.view c ++ staleAll h c (w.output c).stack.length w = w.view c ∧
      (w.IsOpen c → staleAll h c (w.output c).stack.length w = []) := by
  -- one round for each buffer, and one that finds none
  induction rounds generalizing w with
  | zero => omega
  | succ rounds ih =>
    rw [stopAll]
    obtain ⟨empty, stopped⟩ | ⟨b, v, stopped, advances, stack, same, view⟩ := stop_piles h pile
    · rw [bind_ok stopped, empty]
      exact ⟨w, rfl, pile.still, empty, List.append_nil _, fun _ => rfl⟩
    · rw [stack, List.length_cons] at enough
      obtain ⟨w', rest, advances', empty, view', nothing⟩ := ih advances.pile (by omega)
      rw [bind_ok stopped, stack, List.length_cons, staleAll, stopped]
      refine ⟨w', rest, advances.trans advances', empty, ?_, fun isOpen => ?_⟩
      · rw [← view, ← view', List.append_assoc]
      · rw [isOpen.stale, List.append_nil]
        apply nothing
        intro d member
        rw [same d member]
        exact isOpen d (by simp [stack, member])

theorem flushAll_piles (h : Host τ) (pile : w.HasPile c) :
    ∃ w' arrived, flushAll h c w = (.ok (), w') ∧ w'.HasPile c ∧ (w'.output c).stack = [] ∧
      (w'.output c).isRootClosed ∧ (w'.sinkOf c).contents = w'.view c ∧
      w'.view c ++ staleAll h c (w.output c).stack.length w = w.view c ∧
      (w'.sinkOf c).contents = (w.sinkOf c).contents ++ arrived ∧
      ((w.sinkOf c).canFlush → (w'.sinkOf c).unflushed =
        if (w.output c).isRootClosed then (w.sinkOf c).unflushed ++ arrived else []) ∧
      (w.IsOpen c → staleAll h c (w.output c).stack.length w = []) := by
  obtain ⟨v, stopped, advances, empty, view, nothing⟩ := stopAll_piles h pile
    ((w.output c).stack.length + 1 + h.patience) (by omega)
  obtain ⟨result, w', closed, pile', output, view', sink⟩ := closeRoot_piles h advances.pile
  have plain := advances.pile.plain
  -- flushing a sink does not change what has arrived there
  have contents : (w'.sinkOf c).contents = (v.sinkOf c).contents := by
    rw [sink]
    split
    next => rfl
    next => exact (Sink.flush_plain plain.accepts plain.keeps).1
  obtain ⟨arrived, gains⟩ := advances.arrived
  have stack' : (w'.output c).stack = [] := by rw [output, empty]
  refine ⟨w', arrived, ?_, pile', stack', by rw [output], ?_, by rw [view', view], ?_,
    fun canFlush => ?_, nothing⟩
  · rw [flushAll, bind_ok (context_apply w c),
      bind_ok (show stopAll h c ((w.context c).output.stack.length + 1 + h.patience) w = _ from stopped),
      bind_ok closed]
    rfl
  · rw [World.view, stack']
    exact (List.append_nil _).symm
  · rw [contents, gains.contents]
  · rw [sink, ← advances.root]
    split
    next => exact gains.unflushed
    next => exact Sink.unflushed_flush (gains.canFlush.trans canFlush) plain.keeps

end Output

namespace Action

open Output

def writes (w : World τ) : Action → Bytes
  | echo v => w.textOf v
  | echoBytes text | write text => text
  | _ => []

def loses (h : Host τ) (c : ContextId) (w : World τ) : Action → Bytes
  | stopBuffer => w.stale c
  | flushAll => w.staleAll h c (w.output c).stack.length
  | _ => []

/-- Operations on an output stack that put no handler on it and erase nothing. Of the levels that
stand on it they close only some. -/
def IsClosing (closable : Level → Prop) (o : Output) : Action → Prop
  | echo _ | echoBytes _ | write _ | startBuffer none _ _ | stopBuffer | flushAll => True
  | closeLevel level => level ∈ o.levels ∧ closable level
  | _ => False

variable {w : World τ} {c : ContextId} {closable : Level → Prop}

theorem perform_closing (h : Host τ) (pile : w.HasPile c) (a : Action)
    (isClosing : a.IsClosing closable (w.output c)) :
    ∃ result w', a.perform h c w = (.ok result, w') ∧ w'.HasPile c ∧
      w'.view c ++ a.loses h c w = w.view c ++ a.writes w ∧
      ((∀ b, ¬ closable (.buffer b)) → w.IsOpen c → w'.IsOpen c ∧ a.loses h c w = []) := by
  -- the three ways to write differ in the text and in the result only
  have written (text : Bytes) : ∃ w', Output.write h c text w = (.ok (text.length, none), w') ∧
      w'.HasPile c ∧ w'.view c = w.view c ++ text ∧ (w.IsOpen c → w'.IsOpen c) := by
    obtain ⟨w', written, advances, pours⟩ := write_pours h pile text
    refine ⟨w', written, advances.pile, ?_, fun isOpen b member => ?_⟩
    · rw [World.view, pours.stack, pours.passed, World.view]
    · rw [pours.stack] at member
      rw [pours.isClosed, isOpen b member]
  cases a with
  | echo v =>
    obtain ⟨w', written, pile', view, isOpen⟩ := written (w.textOf v)
    refine ⟨(), w', ?_, pile', (List.append_nil _).trans view, fun _ start => ⟨isOpen start, rfl⟩⟩
    exact (Run.bind_ok (w.textOf_apply v)).trans (Run.bind_ok written)
  | echoBytes text =>
    obtain ⟨w', written, pile', view, isOpen⟩ := written text
    exact ⟨(), w', Run.bind_ok written, pile', (List.append_nil _).trans view,
      fun _ start => ⟨isOpen start, rfl⟩⟩
  | write text =>
    obtain ⟨w', written, pile', view, isOpen⟩ := written text
    exact ⟨_, w', written, pile', (List.append_nil _).trans view,
      fun _ start => ⟨isOpen start, rfl⟩⟩
  | startBuffer handler chunkSize isErasable =>
    cases handler with
    | none =>
      obtain ⟨b, w', started, advances, stack, own, older, view⟩ :=
        start_piles pile chunkSize isErasable
      refine ⟨b, w', started, advances.pile, congrArg (· ++ []) view, fun _ isOpen => ⟨?_, rfl⟩⟩
      rw [World.IsOpen, stack, List.forall_mem_cons]
      exact ⟨own, fun d member => by rw [older d member, isOpen d member]⟩
    | some k => cases isClosing
  | stopBuffer =>
    obtain ⟨empty, stopped⟩ | ⟨b, w', stopped, advances, stack, same, view⟩ := stop_piles h pile
    · have nothing : w.stale c = [] := by simp [World.stale, empty]
      exact ⟨none, w, stopped, pile, congrArg (w.view c ++ ·) nothing, fun _ isOpen => ⟨isOpen, nothing⟩⟩
    · refine ⟨some b, w', stopped, advances.pile, view.trans (List.append_nil _).symm,
        fun _ isOpen => ⟨fun d member => ?_, isOpen.stale⟩⟩
      rw [same d member]
      exact isOpen d (by simp [stack, member])
  | closeLevel level =>
    obtain ⟨onStack, allowed⟩ := isClosing
    cases level with
    | root =>
      obtain ⟨result, w', closed, pile', output, view, -⟩ := closeRoot_piles h pile
      refine ⟨result, w', closed, pile', congrArg (· ++ []) view, fun _ isOpen => ⟨?_, rfl⟩⟩
      rw [World.IsOpen, output]
      exact isOpen
    | buffer b =>
      obtain ⟨upper, lower, stack⟩ := mem_stack onStack
      obtain ⟨w', closed, advances, -, view⟩ := close_piles h pile stack
      exact ⟨none, w', closed, advances.pile, congrArg (· ++ []) view,
        fun none => (none b allowed).elim⟩
  | flushAll =>
    obtain ⟨w', _, flushed, pile', empty, -, -, view, -, -, nothing⟩ := flushAll_piles h pile
    refine ⟨(), w', flushed, pile', view.trans (List.append_nil _).symm,
      fun _ isOpen => ⟨?_, nothing isOpen⟩⟩
    simp [World.IsOpen, empty]
  | _ => cases isClosing

end Action

inductive ClosingHistory (h : Host τ) (closable : Level → Prop) (c : ContextId) (w : World τ) :
    Bytes → Bytes → World τ → Prop
  | start : ClosingHistory h closable c w (w.sinkOf c).contents (w.sinkOf c).contents w
  | step {said kept kept' : Bytes} {v v' : World τ} (a : Action) (result : a.Result)
      (before : ClosingHistory h closable c w said kept v)
      (isClosing : a.IsClosing closable (v.output c)) (performed : a.perform h c v = (.ok result, v'))
      (rest : kept' ++ a.loses h c v = kept ++ a.writes v) :
      ClosingHistory h closable c w (said ++ a.writes v) kept' v'

section History

variable {h : Host τ} {closable : Level → Prop} {c : ContextId} {w v : World τ} {said kept : Bytes}

theorem ClosingHistory.pile (history : ClosingHistory h closable c w said kept v)
    (plain : w.HasPlainSink c) (empty : (w.output c).stack = []) :
    v.HasPile c ∧ v.view c = kept ∧ kept.Sublist said ∧
      ((∀ b, ¬ closable (.buffer b)) → v.IsOpen c ∧ kept = said) := by
  induction history with
  | start =>
    refine ⟨⟨plain, empty ▸ trivial⟩, ?_, .refl _, fun _ => ⟨by simp [World.IsOpen, empty], rfl⟩⟩
    rw [World.view, empty]
    exact List.append_nil _
  | @step said kept kept' v v' a result before isClosing performed rest ih =>
    obtain ⟨pile, view, inside, whole⟩ := ih
    obtain ⟨_, _, same, pile', view', nothing⟩ := a.perform_closing h pile isClosing
    cases same.symm.trans performed
    refine ⟨pile', ?_, ?_, fun none => ?_⟩
    · rw [view, ← rest] at view'
      exact List.append_cancel_right view'
    · have begins := List.sublist_append_left kept' (a.loses h c v)
      rw [rest] at begins
      exact begins.trans (inside.append_right _)
    · obtain ⟨isOpen, same⟩ := whole none
      obtain ⟨isOpen', lost⟩ := nothing none isOpen
      rw [lost, List.append_nil] at rest
      exact ⟨isOpen', by rw [rest, same]⟩

/-- Whatever is done to the output, flushing everything brings to the sink, in order, what has been
written and not lost with a closed buffer, which is all of it if no user buffer is closed. The sink is
flushed after that if the root was still open, and not otherwise. -/
theorem closing_loses_stale (plain : w.HasPlainSink c) (empty : (w.output c).stack = [])
    (history : ClosingHistory h closable c w said kept v) :
    (∀ a : Action, a.IsClosing closable (v.output c) → ∃ result v', a.perform h c v = (.ok result, v') ∧
      v'.view c ++ a.loses h c v = v.view c ++ a.writes v) ∧
    kept.Sublist said ∧
    ∃ v' arrived lost, Output.flushAll h c v = (.ok (), v') ∧
      lost = v.staleAll h c (v.output c).stack.length ∧
      (v'.sinkOf c).contents ++ lost = kept ∧
      ((v'.sinkOf c).contents = said ↔ kept = said ∧ lost = []) ∧
      ((∀ b, ¬ closable (.buffer b)) → (v'.sinkOf c).contents = said) ∧
      (v'.sinkOf c).contents = (v.sinkOf c).contents ++ arrived ∧
      (v'.output c).isRootClosed ∧
      ((v.sinkOf c).canFlush → (v'.sinkOf c).unflushed =
        if (v.output c).isRootClosed then (v.sinkOf c).unflushed ++ arrived else []) := by
  obtain ⟨pile, view, inside, whole⟩ := history.pile plain empty
  obtain ⟨v', arrived, flushed, pile', -, closed, contents, rest, grown, unflushed, nothing⟩ :=
    Output.flushAll_piles h pile
  rw [← contents, view] at rest
  refine ⟨fun a isClosing => ?_, inside, v', arrived, _, flushed, rfl, rest, ?_, fun none => ?_, grown,
    closed, unflushed⟩
  · obtain ⟨result, v', performed, -, effect, -⟩ := a.perform_closing h pile isClosing
    exact ⟨result, v', performed, effect⟩
  · constructor
    next =>
      -- nothing is lost from a text that has arrived in its full length
      intro all
      have short := inside.length_le
      rw [← rest, all, List.length_append] at short
      have nothing : v.staleAll h c (v.output c).stack.length = [] :=
        List.eq_nil_of_length_eq_zero (by omega)
      rw [nothing, List.append_nil, all] at rest
      exact ⟨rest.symm, nothing⟩
    next =>
      rintro ⟨rfl, lost⟩
      rwa [lost, List.append_nil] at rest
  · obtain ⟨isOpen, same⟩ := whole none
    rwa [nothing isOpen, List.append_nil, same] at rest

end History

def World.flushable : World Unit := { World.single with sinks := Pool.empty.add { canFlush := true } }

abbrev FlushableHistory : Bytes → Bytes → World Unit → Prop :=
  ClosingHistory Host.idle (fun _ => True) ⟨0⟩ World.flushable

theorem closing_loses_stale_chunk :
    ∃ v v' : World Unit, FlushableHistory "abcdef" "abcdef" v ∧
      Output.flushAll Host.idle ⟨0⟩ v = (.ok (), v') ∧
      (v'.sinkOf ⟨0⟩).contents = Bytes.ofString "abcd" ∧ (v'.sinkOf ⟨0⟩).unflushed = [] := by
  have started : FlushableHistory [] [] _ :=
    .step (.startBuffer none 3 true) ⟨0⟩ .start trivial rfl rfl
  have closed : FlushableHistory [] [] _ :=
    started.step (.closeLevel (.buffer ⟨0⟩)) none ⟨.tail _ (.head _), trivial⟩ rfl rfl
  have passed : FlushableHistory "abcd" "abcd" _ :=
    closed.step (.write "abcd") (4, none) trivial rfl rfl
  have filled : FlushableHistory "abcdef" "abcdef" _ :=
    passed.step (.write "ef") (2, none) trivial rfl rfl
  obtain ⟨-, -, v', arrived, lost, flushed, stale, rest, -, -, -, -, unflushed⟩ :=
    closing_loses_stale ⟨rfl, rfl, rfl, rfl⟩ rfl filled
  refine ⟨_, v', filled, flushed, ?_, unflushed rfl⟩
  rw [show lost = Bytes.ofString "ef" from stale] at rest
  exact List.append_cancel_right rest

theorem closing_swallows :
    (∃ v v' : World Unit, FlushableHistory "x" "x" v ∧
      Output.flushAll Host.idle ⟨0⟩ v = (.ok (), v') ∧ (v'.sinkOf ⟨0⟩).contents = []) ∧
    ∃ v v' : World Unit, FlushableHistory "x" "x" v ∧
      Output.flushAll Host.idle ⟨0⟩ v = (.ok (), v') ∧
      (v'.sinkOf ⟨0⟩).canFlush ∧ (v'.sinkOf ⟨0⟩).unflushed = Bytes.ofString "x" := by
  constructor
  next =>
    have started : FlushableHistory [] [] _ :=
      .step (.startBuffer none 0 true) ⟨0⟩ .start trivial rfl rfl
    have closed : FlushableHistory [] [] _ :=
      started.step (.closeLevel (.buffer ⟨0⟩)) none ⟨.tail _ (.head _), trivial⟩ rfl rfl
    exact ⟨_, _, closed.step (.write "x") (1, none) trivial rfl rfl, rfl, rfl⟩
  next =>
    have flushed : FlushableHistory [] [] _ :=
      .step .flushAll () .start trivial rfl rfl
    exact ⟨_, _, flushed.step (.write "x") (1, none) trivial rfl rfl, rfl, rfl, rfl⟩

end ScriptHost
