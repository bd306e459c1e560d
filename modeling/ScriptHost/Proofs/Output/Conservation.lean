import ScriptHost.Proofs.Embedder.Operation
import ScriptHost.Proofs.Output.Piles

set_option autoImplicit false

namespace ScriptHost

variable {τ : Type}

namespace World

structure HasPlainOutput (w : World τ) (c : ContextId) : Prop where
  plain : w.HasPlainSink c
  stacked : (w.output c).Stacked (w.output c).stack

def textOf (w : World τ) : Value → Bytes
  | .object o => Template.detail w.classes w.objects (.object o)
  | v => v.toText

theorem textOf_apply (w : World τ) (v : Value) : Run.textOf v w = (.ok (w.textOf v), w) := by
  cases v <;> rfl

end World

inductive ViewEffect where
  | appends (text : Bytes)
  | keeps
  | erases (start length : Nat)
deriving DecidableEq, Repr

def ViewEffect.apply (view : Bytes) : ViewEffect → Bytes
  | appends text => view ++ text
  | keeps => view
  | erases start length => view.take start ++ view.drop (start + length)

namespace Action

def IsPlainOutput (o : Output) : Action → Prop
  | echo _ | echoBytes _ | write _ | startBuffer none _ _ | stopBuffer | discardBuffer
  | flushAll => True
  | flush level | clean level => level ∈ o.levels
  | _ => False

def erasure (w : World τ) (c : ContextId) (b : BufferId) : ViewEffect :=
  .erases (w.passed c ((w.output c).buffer b).below).length ((w.output c).buffer b).held.length

def viewEffect (w : World τ) (c : ContextId) : (a : Action) → a.Result → ViewEffect
  | echo v, _ => .appends (w.textOf v)
  | echoBytes text, _ | write text, _ => .appends text
  | clean (.buffer b), none => erasure w c b
  | discardBuffer, true =>
    match (w.output c).stack with
    | b :: _ => erasure w c b
    | [] => .keeps
  | _, _ => .keeps

end Action

namespace World

variable {w w' : World τ} {c : ContextId}

theorem hasPlainOutput_iff : w.HasPlainOutput c ↔
    w.HasPile c ∧ ∀ b ∈ (w.output c).stack, ((w.output c).buffer b).isClosed = false := by
  constructor
  next =>
    intro ordered
    have stacked := (Output.stacked_iff _ _).1 ordered.stacked
    exact ⟨⟨ordered.plain, stacked.1⟩, stacked.2⟩
  next => exact fun ⟨pile, isOpen⟩ => ⟨pile.plain, (Output.stacked_iff _ _).2 ⟨pile.piled, isOpen⟩⟩

theorem Lowers.stacked {below route : List BufferId} (lowers : w.Lowers w' c below)
    (stacked : (w.output c).Stacked route) : (w'.output c).Stacked route :=
  stacked.congr lowers.known fun d _ => lowers.buffers d

end World

namespace Output

open Run World

variable {w : World τ} {c : ContextId} {b : BufferId} {upper lower : List BufferId}

theorem write_appends (h : Host τ) (ordered : w.HasPlainOutput c) (text : Bytes) :
    ∃ w', write h c text w = (.ok (text.length, none), w') ∧ w'.HasPlainOutput c ∧
      w'.view c = w.view c ++ text := by
  obtain ⟨w', delivered, passes⟩ :=
    takes_route h c (w.output c).stack w text ordered.plain ordered.stacked
  refine ⟨w', ?_, ⟨passes.plain, passes.stack ▸ passes.stacked⟩, ?_⟩
  · rw [write, bind_ok (context_apply w c), writeTo, bind_ok (context_apply w c)]
    exact (congrArg (deliver h c · text w) (route_top ordered.stacked.piled)).trans delivered
  · rw [World.view, passes.stack, passes.passed, World.view]

theorem echoBytes_appends (h : Host τ) (ordered : w.HasPlainOutput c) (text : Bytes) :
    ∃ w', echoBytes h c text w = (.ok (), w') ∧ w'.HasPlainOutput c ∧
      w'.view c = w.view c ++ text := by
  obtain ⟨w', written, rest⟩ := write_appends h ordered text
  exact ⟨w', by rw [echoBytes, bind_ok written]; rfl, rest⟩

theorem start_keeps (ordered : w.HasPlainOutput c) (chunkSize : Int) (isErasable : Bool) :
    ∃ b w', start c none chunkSize isErasable w = (.ok b, w') ∧ w'.HasPlainOutput c ∧
      w'.view c = w.view c := by
  rw [hasPlainOutput_iff] at ordered
  obtain ⟨b, w', started, advances, stack, own, older, view⟩ :=
    start_piles ordered.1 chunkSize isErasable
  refine ⟨b, w', started, hasPlainOutput_iff.2 ⟨advances.pile, ?_⟩, view⟩
  rw [stack, List.forall_mem_cons]
  exact ⟨own, fun d member => by rw [older d member, ordered.2 d member]⟩

theorem flush_keeps (h : Host τ) (ordered : w.HasPlainOutput c)
    (stack : (w.output c).stack = upper ++ b :: lower) :
    ∃ w', flush h c (.buffer b) w = (.ok none, w') ∧ w'.HasPlainOutput c ∧
      w'.view c = w.view c := by
  have stacked := stack ▸ ordered.stacked
  obtain ⟨known, apart, fits, rest⟩ := stacked.lower
  obtain ⟨w', drained, drains⟩ := drainBuffer_drains h ordered.plain known apart fits.handler
    fits.below rest { flush := true }
  have above : ∀ d ∈ upper, (w'.output c).buffer d = (w.output c).buffer d :=
    fun d member => drains.others d (stacked.piled.apart d member)
  have emptied : (w'.output c).Stacked (b :: lower) := by
    refine ⟨drains.known b known, apart, ?_, drains.stacked⟩
    rw [drains.emptied]
    exact ⟨fits.level, fits.below, fits.handler, fits.isOpen, id⟩
  refine ⟨w', drained, ⟨drains.plain, ?_⟩, ?_⟩
  · rw [drains.stack, stack]
    exact stacked.replace drains.known above emptied
  · rw [World.view, World.view, drains.stack, stack, passed_append, passed_append, held_congr above, passed_cons,
      passed_cons, drains.passed, drains.emptied, List.append_nil]

theorem flush_root_keeps (h : Host τ) (ordered : w.HasPlainOutput c) :
    ∃ result w', flush h c .root w = (.ok result, w') ∧ w'.HasPlainOutput c ∧
      w'.output c = w.output c ∧ w'.view c = w.view c := by
  have plain := ordered.plain
  obtain ⟨contents, accepts, keeps⟩ := Sink.flush_plain plain.accepts plain.keeps
  refine ⟨_, _, onSink_apply w c Sink.flush, ⟨plain.updateSink accepts keeps, ordered.stacked⟩, rfl,
    ?_⟩
  rw [World.view, World.passed, sinkOf_updateSink plain.sink, contents]
  rfl

theorem clean_erases (h : Host τ) (ordered : w.HasPlainOutput c)
    (stack : (w.output c).stack = upper ++ b :: lower) :
    (((w.output c).buffer b).isErasable = false ∧
      clean h c (.buffer b) w = (.ok (some .notErasable), w)) ∨
    (((w.output c).buffer b).isErasable ∧
      ∃ w', clean h c (.buffer b) w = (.ok none, w') ∧ w'.HasPlainOutput c ∧
        w.Touches w' c b { (w.output c).buffer b with held := [] } ∧
        w'.view c = w.passed c lower ++ (w.output c).held upper) := by
  have stacked := stack ▸ ordered.stacked
  obtain ⟨known, apart, fits, rest⟩ := stacked.lower
  have cleared := touches_modify ordered.plain known fun x => { x with held := [] }
  have above : ∀ d ∈ upper, _ := fun d member =>
    cleared.others d fun same => stacked.piled.apart d member (same ▸ List.mem_cons_self)
  rw [clean, bind_ok (bufferOf_apply w c b)]
  cases erasable : ((w.output c).buffer b).isErasable with
  | false => exact .inl ⟨rfl, rfl⟩
  | true =>
    refine .inr ⟨rfl, _, ?_, ⟨cleared.plain, ?_⟩, cleared, ?_⟩
    · dsimp only
      rw [fits.handler]
      rfl
    · rw [cleared.stack, stack]
      refine stacked.replace cleared.known above ⟨cleared.known b known, apart, ?_,
        cleared.stacked apart rest⟩
      rw [cleared.own]
      exact ⟨fits.level, fits.below, fits.handler, fits.isOpen, id⟩
    · rw [World.view, cleared.stack, stack, passed_append, held_congr above, passed_cons,
        cleared.own, List.append_nil, cleared.passed apart]

theorem stop_keeps (h : Host τ) (ordered : w.HasPlainOutput c) :
    ((w.output c).stack = [] ∧ stop h c w = (.ok none, w)) ∨
    ∃ b w', stop h c w = (.ok (some b), w') ∧ w'.HasPlainOutput c ∧
      (w.output c).stack = b :: (w'.output c).stack ∧ w'.view c = w.view c := by
  obtain ⟨pile, isOpen⟩ := hasPlainOutput_iff.1 ordered
  obtain empty | ⟨b, w', stopped, advances, stack, same, view⟩ := stop_piles h pile
  · exact .inl empty
  · rw [stack, List.forall_mem_cons] at isOpen
    have nothing : w.stale c = [] := by simp [World.stale, stack, isOpen.1]
    refine .inr ⟨b, w', stopped, hasPlainOutput_iff.2 ⟨advances.pile, fun d member => ?_⟩, stack, ?_⟩
    · rw [same d member, isOpen.2 d member]
    · rw [← view, nothing, List.append_nil]

theorem discard_erases (h : Host τ) (ordered : w.HasPlainOutput c) :
    (discard h c w = (.ok false, w)) ∨
    ∃ b below w', (w.output c).stack = b :: below ∧ discard h c w = (.ok true, w') ∧
      w'.HasPlainOutput c ∧ (w'.output c).stack = below ∧ w'.view c = w.passed c below := by
  rw [discard, bind_ok (context_apply w c)]
  cases stack : (w.output c).stack with
  | nil =>
    rw [show (w.context c).output.stack = [] from stack]
    exact .inl rfl
  | cons b below =>
    rw [show (w.context c).output.stack = b :: below from stack]
    dsimp only
    obtain ⟨known, apart, _, rest⟩ := stack ▸ ordered.stacked
    obtain ⟨_, refused⟩ | ⟨_, u, cleaned, ordered', cleared, _⟩ :=
      clean_erases h ordered (show _ = [] ++ b :: below from stack)
    · exact .inl (bind_ok refused)
    · have closed := touches_modify cleared.plain (cleared.known b known)
        fun x => { x with isClosed := true }
      have lowered := lowers_resize closed.plain ((closed.stack.trans cleared.stack).trans stack)
      rw [bind_ok cleaned, if_neg (fun refused => nomatch refused),
        bind_ok (modifyBuffer_apply u c b _), bind_ok (modifyStack_apply _ c _)]
      refine .inr ⟨b, below, _, rfl, rfl, ⟨lowered.plain, ?_⟩, lowered.stack, ?_⟩
      · rw [lowered.stack]
        exact lowered.stacked (closed.stacked apart (cleared.stacked apart rest))
      · rw [World.view, lowered.stack, lowered.passed, closed.passed apart, cleared.passed apart]

theorem stopAll_keeps (h : Host τ) (ordered : w.HasPlainOutput c) (rounds : Nat)
    (enough : (w.output c).stack.length < rounds) :
    ∃ w', stopAll h c rounds w = (.ok (), w') ∧ w'.HasPlainOutput c ∧
      (w'.output c).stack = [] ∧ w'.view c = w.view c := by
  induction rounds generalizing w with
  | zero => exact absurd enough (Nat.not_lt_zero _)
  | succ rounds ih =>
    rw [stopAll]
    obtain ⟨empty, stopped⟩ | ⟨b, v, stopped, ordered', stack, view⟩ := stop_keeps h ordered
    · rw [bind_ok stopped]
      exact ⟨w, rfl, ordered, empty, rfl⟩
    · rw [stack, List.length_cons] at enough
      obtain ⟨w', rest, ordered'', empty, view'⟩ := ih ordered' (Nat.lt_of_succ_lt_succ enough)
      rw [bind_ok stopped]
      exact ⟨w', rest, ordered'', empty, view'.trans view⟩

theorem close_root_keeps (h : Host τ) (ordered : w.HasPlainOutput c) :
    ∃ result w', close h c .root w = (.ok result, w') ∧ w'.HasPlainOutput c ∧
      (w'.output c).stack = (w.output c).stack ∧ w'.view c = w.view c := by
  obtain ⟨pile, isOpen⟩ := hasPlainOutput_iff.1 ordered
  obtain ⟨result, w', closed, pile', output, view, -⟩ := closeRoot_piles h pile
  refine ⟨result, w', closed, hasPlainOutput_iff.2 ⟨pile', ?_⟩, by rw [output], view⟩
  rw [output]
  exact isOpen

theorem flushAll_keeps (h : Host τ) (ordered : w.HasPlainOutput c) :
    ∃ w', flushAll h c w = (.ok (), w') ∧ w'.HasPlainOutput c ∧ (w'.output c).stack = [] ∧
      (w'.sinkOf c).contents = w.view c ∧ w'.view c = w.view c := by
  obtain ⟨v, stopped, ordered', empty, view⟩ := stopAll_keeps h ordered
    ((w.output c).stack.length + 1 + h.patience) (by omega)
  obtain ⟨result, w', closed, ordered'', stack, view'⟩ := close_root_keeps h ordered'
  have stack' := stack.trans empty
  have sink : w'.view c = (w'.sinkOf c).contents := by
    rw [World.view, stack']
    exact List.append_nil _
  refine ⟨w', ?_, ordered'', stack', sink.symm.trans (view'.trans view), view'.trans view⟩
  rw [flushAll, bind_ok (context_apply w c),
    bind_ok (show stopAll h c ((w.context c).output.stack.length + 1 + h.patience) w = _ from stopped),
    bind_ok closed]
  rfl

end Output

namespace Action

open Run World Output

variable {w : World τ} {c : ContextId}

theorem apply_erasure {b : BufferId} {upper lower : List BufferId} (ordered : w.HasPlainOutput c)
    (stack : (w.output c).stack = upper ++ b :: lower) :
    (erasure w c b).apply (w.view c) = w.passed c lower ++ (w.output c).held upper := by
  have fits := ((stack ▸ ordered.stacked).lower : (w.output c).Stacked (b :: lower)).2.2.1
  rw [erasure, ViewEffect.apply, fits.below, World.view, stack, passed_append, passed_cons,
    List.append_assoc, List.take_left, ← List.drop_drop, List.drop_left, List.drop_left]

theorem perform_output (h : Host τ) (ordered : w.HasPlainOutput c) (a : Action)
    (isOutput : a.IsPlainOutput (w.output c)) :
    ∃ result w', a.perform h c w = (.ok result, w') ∧ w'.HasPlainOutput c ∧
      w'.view c = (a.viewEffect w c result).apply (w.view c) := by
  cases a with
  | echo v =>
    obtain ⟨w', echoed, rest⟩ := echoBytes_appends h ordered (w.textOf v)
    exact ⟨(), w', (bind_ok (w.textOf_apply v)).trans echoed, rest⟩
  | echoBytes text =>
    obtain ⟨w', echoed, rest⟩ := echoBytes_appends h ordered text
    exact ⟨(), w', echoed, rest⟩
  | write text =>
    obtain ⟨w', written, rest⟩ := write_appends h ordered text
    exact ⟨_, w', written, rest⟩
  | startBuffer handler chunkSize isErasable =>
    cases handler with
    | none =>
      obtain ⟨b, w', started, rest⟩ := start_keeps ordered chunkSize isErasable
      exact ⟨b, w', started, rest⟩
    | some k => cases isOutput
  | stopBuffer =>
    obtain ⟨_, stopped⟩ | ⟨b, w', stopped, ordered', _, view⟩ := stop_keeps h ordered
    · exact ⟨none, w, stopped, ordered, rfl⟩
    · exact ⟨some b, w', stopped, ordered', view⟩
  | discardBuffer =>
    obtain refused | ⟨b, below, w', stack, discarded, ordered', _, view⟩ := discard_erases h ordered
    · exact ⟨false, w, refused, ordered, rfl⟩
    · refine ⟨true, w', discarded, ordered', ?_⟩
      rw [viewEffect, stack, view]
      exact ((apply_erasure ordered (show _ = [] ++ b :: below from stack)).trans
        (List.append_nil _)).symm
  | flush level =>
    cases level with
    | root =>
      obtain ⟨result, w', flushed, ordered', _, view⟩ := flush_root_keeps h ordered
      exact ⟨result, w', flushed, ordered', view⟩
    | buffer b =>
      obtain ⟨upper, lower, stack⟩ := mem_stack isOutput
      obtain ⟨w', flushed, rest⟩ := flush_keeps h ordered stack
      exact ⟨none, w', flushed, rest⟩
  | clean level =>
    cases level with
    | root => exact ⟨some .notErasable, w, rfl, ordered, rfl⟩
    | buffer b =>
      obtain ⟨upper, lower, stack⟩ := mem_stack isOutput
      obtain ⟨_, refused⟩ | ⟨_, w', cleaned, ordered', _, view⟩ := clean_erases h ordered stack
      · exact ⟨_, w, refused, ordered, rfl⟩
      · exact ⟨none, w', cleaned, ordered', view.trans (apply_erasure ordered stack).symm⟩
  | flushAll =>
    obtain ⟨w', flushed, ordered', _, _, view⟩ := flushAll_keeps h ordered
    exact ⟨(), w', flushed, ordered', view⟩
  | _ => cases isOutput

end Action

inductive OutputHistory (h : Host τ) (c : ContextId) (w : World τ) : Bytes → World τ → Prop
  | start : OutputHistory h c w (w.sinkOf c).contents w
  | step {kept : Bytes} {v v' : World τ} (a : Action) (result : a.Result)
      (before : OutputHistory h c w kept v) (isOutput : a.IsPlainOutput (v.output c))
      (performed : a.perform h c v = (.ok result, v')) :
      OutputHistory h c w ((a.viewEffect v c result).apply kept) v'

theorem OutputHistory.ordered {h : Host τ} {c : ContextId} {w v : World τ} {kept : Bytes}
    (history : OutputHistory h c w kept v) (plain : w.HasPlainSink c)
    (empty : (w.output c).stack = []) : v.HasPlainOutput c ∧ v.view c = kept := by
  induction history with
  | start =>
    refine ⟨⟨plain, empty ▸ trivial⟩, ?_⟩
    rw [World.view, empty]
    exact List.append_nil _
  | step a result before isOutput performed ih =>
    obtain ⟨ordered, view⟩ := ih
    obtain ⟨_, _, same, ordered', view'⟩ := a.perform_output h ordered isOutput
    cases same.symm.trans performed
    exact ⟨ordered', view'.trans (congrArg (ViewEffect.apply · _) view)⟩

/-- In every history the view is what was echoed and not erased. Every further operation returns
and has its exact effect on the view; the buffers stand in order, none fuller than it may be; and
flushing everything leaves the root alone, with just those bytes in the sink. -/
theorem output_conserved (h : Host τ) {c : ContextId} {w v : World τ} {kept : Bytes}
    (plain : w.HasPlainSink c) (empty : (w.output c).stack = [])
    (history : OutputHistory h c w kept v) :
    v.view c = kept ∧
    (∀ upper b lower, (v.output c).stack = upper ++ b :: lower →
      ((v.output c).buffer b).Fits lower) ∧
    (∀ a : Action, a.IsPlainOutput (v.output c) → ∃ result v', a.perform h c v = (.ok result, v') ∧
      v'.view c = (a.viewEffect v c result).apply (v.view c)) ∧
    ∃ v', Output.flushAll h c v = (.ok (), v') ∧ (v'.output c).stack = [] ∧
      (v'.sinkOf c).contents = kept := by
  obtain ⟨ordered, view⟩ := history.ordered plain empty
  refine ⟨view, fun upper b lower stack => ?_, fun a isOutput => ?_, ?_⟩
  · exact ((stack ▸ ordered.stacked).lower : (v.output c).Stacked (b :: lower)).2.2.1
  · obtain ⟨result, v', performed, _, effect⟩ := a.perform_output h ordered isOutput
    exact ⟨result, v', performed, effect⟩
  · obtain ⟨v', flushed, _, stack, sink, _⟩ := Output.flushAll_keeps h ordered
    exact ⟨v', flushed, stack, sink.trans view⟩

def World.single : World Unit where
  files := default
  observers := .empty
  sinks := Pool.empty.add {}
  contexts := Pool.empty.add (Execution.fresh 1 ⟨0⟩ default ⟨0⟩ ⟨0⟩)
  embedder := ()

theorem output_conserved_chunk :
    ∃ v v' : World Unit, v.view ⟨0⟩ = Bytes.ofString "abcd" ∧
      Output.flushAll (.ofCalls 0 fun _ => Run.exhausted) ⟨0⟩ v = (.ok (), v') ∧
      (v'.sinkOf ⟨0⟩).contents = Bytes.ofString "abcd" := by
  have started : OutputHistory (.ofCalls 0 fun _ => Run.exhausted) ⟨0⟩ World.single _ _ :=
    .step (.startBuffer none 3 true) ⟨0⟩ .start trivial rfl
  have filled := started.step (.write "abcd") (4, none) trivial rfl
  have rest := filled.step (.write "ef") (2, none) trivial rfl
  have erased := rest.step (.clean (.buffer ⟨0⟩)) none (.tail _ (.head _)) rfl
  obtain ⟨view, _, _, v', flushed, _, sink⟩ :=
    output_conserved _ ⟨rfl, rfl, rfl, rfl⟩ rfl erased
  exact ⟨_, v', view, flushed, sink⟩

end ScriptHost
