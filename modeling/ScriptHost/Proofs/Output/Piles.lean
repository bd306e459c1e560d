import ScriptHost.Proofs.Output.Route

set_option autoImplicit false

namespace ScriptHost

variable {τ : Type}

namespace World

def view (w : World τ) (c : ContextId) : Bytes := w.passed c (w.output c).stack

structure HasPile (w : World τ) (c : ContextId) : Prop where
  plain : w.HasPlainSink c
  piled : (w.output c).Piled (w.output c).stack

structure Advances (w w' : World τ) (c : ContextId) : Prop where
  pile : w'.HasPile c
  arrived : ∃ text, (w.sinkOf c).Gains (w'.sinkOf c) text
  root : (w'.output c).isRootClosed = (w.output c).isRootClosed

def stale (w : World τ) (c : ContextId) : Bytes :=
  match (w.output c).stack with
  | [] => []
  | b :: _ => if ((w.output c).buffer b).isClosed then ((w.output c).buffer b).held else []

variable {w w' w'' : World τ} {c : ContextId} {b : BufferId}

theorem HasPile.still (pile : w.HasPile c) : w.Advances w c := ⟨pile, ⟨[], .refl _⟩, rfl⟩

theorem Advances.trans (first : w.Advances w' c) (last : w'.Advances w'' c) : w.Advances w'' c := by
  obtain ⟨text, gains⟩ := first.arrived
  obtain ⟨more, gains'⟩ := last.arrived
  exact ⟨last.pile, ⟨text ++ more, gains.trans gains'⟩, last.root.trans first.root⟩

theorem Touches.trans {x y : Buffer} (first : w.Touches w' c b x) (last : w'.Touches w'' c b y) :
    w.Touches w'' c b y where
  plain := last.plain
  stack := last.stack.trans first.stack
  known d there := last.known d (first.known d there)
  others d apart := (last.others d apart).trans (first.others d apart)
  own := last.own
  sink := last.sink.trans first.sink

theorem passed_append (w : World τ) (c : ContextId) (upper lower : List BufferId) :
    w.passed c (upper ++ lower) = w.passed c lower ++ (w.output c).held upper := by
  unfold passed
  rw [Output.held_append, List.append_assoc]

structure Lowers (w w' : World τ) (c : ContextId) (below : List BufferId) : Prop where
  plain : w'.HasPlainSink c
  stack : (w'.output c).stack = below
  known : ∀ d, (w.output c).buffers.has d → (w'.output c).buffers.has d
  buffers : ∀ d, (w'.output c).buffer d = (w.output c).buffer d
  sink : w'.sinkOf c = w.sinkOf c

theorem lowers_resize (plain : w.HasPlainSink c) {below : List BufferId}
    (stack : (w.output c).stack = b :: below) :
    w.Lowers (w.updateOutput c (·.resize below.length)) c below := by
  have output := output_updateOutput plain.context (·.resize below.length)
  refine ⟨plain.updateOutput fun _ => rfl, ?_, ?_, ?_,
    sinkOf_updateOutput plain.context fun _ => rfl⟩
  · rw [output, Output.resize, stack]
    simp
  · rw [output]
    exact fun _ => id
  · rw [output]
    exact fun _ => rfl

theorem Lowers.passed {below : List BufferId} (lowers : w.Lowers w' c below)
    (route : List BufferId) : w'.passed c route = w.passed c route := by
  unfold World.passed
  rw [lowers.sink, Output.held_congr fun d _ => lowers.buffers d]

end World

namespace Output

open Run World

variable {w : World τ} {c : ContextId} {b : BufferId} {below upper lower : List BufferId}

theorem mem_stack {o : Output} (onStack : .buffer b ∈ o.levels) :
    ∃ upper lower, o.stack = upper ++ b :: lower := by
  rcases List.mem_cons.1 onStack with root | inside
  · cases root
  · obtain ⟨d, member, same⟩ := List.mem_map.1 inside
    cases same
    exact List.append_of_mem (List.mem_reverse.1 member)

theorem route_top {o : Output} (piled : o.Piled o.stack) : route o (top o) = o.stack := by
  unfold top
  cases stack : o.stack with
  | nil => rfl
  | cons b below =>
    rw [stack] at piled
    exact congrArg (b :: ·) piled.2.2.1.below

theorem write_pours (h : Host τ) (pile : w.HasPile c) (text : Bytes) :
    ∃ w', write h c text w = (.ok (text.length, none), w') ∧ w.Advances w' c ∧
      w.Pours w' c (w.output c).stack text := by
  obtain ⟨w', delivered, pours⟩ := carries_route h c (w.output c).stack w text pile.plain pile.piled
  refine ⟨w', ?_, ⟨⟨pours.plain, ?_⟩, pours.arrived, pours.isRootClosed⟩, pours⟩
  · rw [write, bind_ok (context_apply w c), writeTo, bind_ok (context_apply w c)]
    exact (congrArg (deliver h c · text w) (route_top pile.piled)).trans delivered
  · rw [pours.stack]
    exact pours.piled pile.piled

theorem start_piles (pile : w.HasPile c) (chunkSize : Int) (isErasable : Bool) :
    ∃ b w', start c none chunkSize isErasable w = (.ok b, w') ∧ w.Advances w' c ∧
      (w'.output c).stack = b :: (w.output c).stack ∧
      ((w'.output c).buffer b).isClosed = false ∧
      (∀ d ∈ (w.output c).stack, (w'.output c).buffer d = (w.output c).buffer d) ∧
      w'.view c = w.view c := by
  let w' := w.updateOutput c (·.push none chunkSize isErasable)
  let b := (w.output c).buffers.next
  have output : w'.output c = (w.output c).push none chunkSize isErasable :=
    output_updateOutput pile.plain.context _
  have sink : w'.sinkOf c = w.sinkOf c := sinkOf_updateOutput pile.plain.context fun _ => rfl
  have stack : (w'.output c).stack = b :: (w.output c).stack := congrArg Output.stack output
  have older : ∀ d ∈ (w.output c).stack, (w'.output c).buffer d = (w.output c).buffer d := by
    intro d member
    rw [output]
    exact Pool.get_add_of_has _ _ (pile.piled.known d member)
  -- the new buffer stands on all that were there, and its text goes on to the topmost of them
  have own : (w'.output c).buffer b = {
      level := (w.output c).stack.length + 1
      chunkSize
      handler := none
      isErasable
      below := (w.output c).stack } := by
    rw [output]
    refine (Pool.get_add_next ..).trans ?_
    rw [route_top pile.piled]
  have known : ∀ d, (w.output c).buffers.has d → (w'.output c).buffers.has d := by
    rw [output]
    exact Pool.has_add _ _
  refine ⟨b, w', rfl, ⟨⟨pile.plain.updateOutput fun _ => rfl, ?_⟩, ?_, by rw [output]; rfl⟩, stack,
    by rw [own], older, ?_⟩
  · rw [stack]
    refine ⟨?_, fun member => ?_, own ▸ ⟨rfl, rfl, rfl, id⟩, pile.piled.congr known older⟩
    · rw [output]
      exact Pool.has_next_add ..
    · exact Pool.ne_next_of_has _ (pile.piled.known b member) rfl
  · rw [sink]
    exact ⟨[], .refl _⟩
  · rw [World.view, World.view, stack, passed_cons, own, List.append_nil, World.passed, World.passed,
      sink, held_congr older]

theorem close_pours (h : Host τ) (plain : w.HasPlainSink c) (known : (w.output c).buffers.has b)
    (apart : b ∉ below) (here : ((w.output c).buffer b).Stands below)
    (isOpen : ((w.output c).buffer b).isClosed = false) (piled : (w.output c).Piled below) :
    ∃ u w', close h c (.buffer b) w = (.ok none, w') ∧
      w.Touches u c b { ((w.output c).buffer b).emptied with isClosed := true } ∧
      (u.output c).isRootClosed = (w.output c).isRootClosed ∧
      u.Pours w' c below ((w.output c).buffer b).held := by
  have closed := touches_modify plain known fun x => { x with isClosed := true }
  have root := output_updateOutput plain.context (·.modify b fun x => { x with isClosed := true })
  rw [close, bind_ok (bufferOf_apply w c b), isOpen, if_neg Bool.false_ne_true,
    bind_ok (modifyBuffer_apply w c b _)]
  generalize w.updateOutput c _ = v at closed root
  -- the flag alone has changed, so the buffer drains as an open one would
  have known' := closed.known b known
  have emptied := touches_modify closed.plain known' Buffer.emptied
  obtain ⟨w', drained, pours⟩ := drainBuffer_pours h closed.plain known' apart
    (by rw [closed.own]; exact here.handler) (by rw [closed.own]; exact here.below)
    (piled.congr closed.known (closed.apart apart)) { final := true }
  rw [closed.own] at pours emptied
  refine ⟨_, w', drained, closed.trans emptied, ?_, pours⟩
  rw [output_updateOutput closed.plain.context, root]
  rfl

theorem stop_piles (h : Host τ) (pile : w.HasPile c) :
    ((w.output c).stack = [] ∧ stop h c w = (.ok none, w)) ∨
    ∃ b w', stop h c w = (.ok (some b), w') ∧ w.Advances w' c ∧
      (w.output c).stack = b :: (w'.output c).stack ∧
      (∀ d ∈ (w'.output c).stack, ((w'.output c).buffer d).isClosed = ((w.output c).buffer d).isClosed) ∧
      w'.view c ++ w.stale c = w.view c := by
  rw [stop, bind_ok (context_apply w c)]
  cases stack : (w.output c).stack with
  | nil =>
    rw [show (w.context c).output.stack = [] from stack]
    exact .inl ⟨rfl, rfl⟩
  | cons b below =>
    obtain ⟨known, apart, here, rest⟩ := stack ▸ pile.piled
    have lowered := lowers_resize pile.plain stack
    have root := output_updateOutput pile.plain.context (·.resize below.length)
    rw [show (w.context c).output.stack = b :: below from stack]
    dsimp only
    rw [bind_ok (modifyStack_apply w c _)]
    generalize w.updateOutput c _ = u at lowered root
    have rest' := rest.congr lowered.known fun d _ => lowered.buffers d
    have root' : (u.output c).isRootClosed = (w.output c).isRootClosed := by rw [root]; rfl
    refine .inr ⟨b, ?_⟩
    rw [← lowered.buffers b] at here
    cases before : ((w.output c).buffer b).isClosed with
    | true =>
      -- it is not drained again, and what it holds is gone with it
      have closed : close h c (.buffer b) u = (.ok none, u) := by
        rw [close, bind_ok (bufferOf_apply u c b), lowered.buffers, before]
        rfl
      refine ⟨u, bind_ok closed, ⟨⟨lowered.plain, by rwa [lowered.stack]⟩, ?_, root'⟩,
        by rw [lowered.stack], fun d _ => by rw [lowered.buffers], ?_⟩
      · rw [lowered.sink]
        exact ⟨[], .refl _⟩
      · rw [World.view, World.view, World.stale, lowered.stack, lowered.passed, stack, passed_cons]
        simp [before]
    | false =>
      -- it drains into the buffers that were below it and are the whole stack now
      rw [← lowered.buffers b] at before
      obtain ⟨v, w', closed, touches, root'', pours⟩ :=
        close_pours h lowered.plain (lowered.known b known) apart here before rest'
      have stack' : (w'.output c).stack = below :=
        pours.stack.trans (touches.stack.trans lowered.stack)
      refine ⟨w', bind_ok closed, ⟨⟨pours.plain, ?_⟩, ?_, ?_⟩, by rw [stack'], fun d member => ?_, ?_⟩
      · rw [stack']
        exact pours.piled (rest'.congr touches.known (touches.apart apart))
      · rw [← lowered.sink, ← touches.sink]
        exact pours.arrived
      · rw [pours.isRootClosed, root'', root']
      · rw [stack'] at member
        rw [pours.isClosed, touches.apart apart d member, lowered.buffers]
      · rw [lowered.buffers] at before pours
        rw [World.view, stack', pours.passed, touches.passed apart, lowered.passed, World.view,
          World.stale, stack, passed_cons]
        simp [before]

theorem close_piles (h : Host τ) (pile : w.HasPile c)
    (stack : (w.output c).stack = upper ++ b :: lower) :
    ∃ w', close h c (.buffer b) w = (.ok none, w') ∧ w.Advances w' c ∧
      (w'.output c).stack = (w.output c).stack ∧ w'.view c = w.view c := by
  have piled := stack ▸ pile.piled
  obtain ⟨known, apart, here, rest⟩ := piled.lower
  cases before : ((w.output c).buffer b).isClosed with
  | true =>
    refine ⟨w, ?_, pile.still, rfl, rfl⟩
    rw [close, bind_ok (bufferOf_apply w c b), before]
    rfl
  | false =>
    obtain ⟨u, w', closed, touches, root, pours⟩ :=
      close_pours h pile.plain known apart here before rest
    have stack' := pours.stack.trans touches.stack
    have own := (pours.others b apart).trans touches.own
    have above : ∀ d ∈ upper, (w'.output c).buffer d = (w.output c).buffer d := by
      intro d member
      have outside := piled.apart d member
      rw [List.mem_cons, not_or] at outside
      rw [pours.others d outside.2, touches.others d outside.1]
    refine ⟨w', closed, ⟨⟨pours.plain, ?_⟩, ?_, ?_⟩, stack', ?_⟩
    -- the closed buffer stays on the stack, empty, and those above it are as they were
    · rw [stack']
      apply pile.piled.mono fun d there => pours.known d (touches.known d there)
      intro d _ below stands
      apply pours.stands
      by_cases same : d = b
      · subst same
        rw [touches.own]
        exact ⟨stands.level, stands.below, stands.handler, id⟩
      · rwa [touches.others d same]
    · rw [← touches.sink]
      exact pours.arrived
    · rw [pours.isRootClosed, root]
    · rw [World.view, World.view, stack', stack, passed_append, passed_append, held_congr above,
        passed_cons, passed_cons, own, pours.passed, touches.passed apart]
      exact congrArg (· ++ _) (List.append_nil _)

theorem closeRoot_piles (h : Host τ) (pile : w.HasPile c) :
    ∃ result w', close h c .root w = (.ok result, w') ∧ w'.HasPile c ∧
      w'.output c = { w.output c with isRootClosed := true } ∧ w'.view c = w.view c ∧
      w'.sinkOf c = if (w.output c).isRootClosed then w.sinkOf c else (w.sinkOf c).flush.2 := by
  rw [close, bind_ok (context_apply w c)]
  split
  next before =>
    have same : w.output c = { w.output c with isRootClosed := true } := by
      rw [← show (w.output c).isRootClosed = true from before]
    exact ⟨none, w, rfl, pile, same, rfl, (if_pos before).symm⟩
  next before =>
    let close (o : Output) : Output := { o with isRootClosed := true }
    have output : (w.updateOutput c close).output c = _ := output_updateOutput pile.plain.context close
    have sink : (w.updateOutput c close).sinkOf c = _ :=
      sinkOf_updateOutput pile.plain.context fun _ => rfl
    have plain : (w.updateOutput c close).HasPlainSink c := pile.plain.updateOutput fun _ => rfl
    rw [bind_ok (modifyStack_apply w c close)]
    generalize w.updateOutput c close = v at output sink plain
    obtain ⟨contents, accepts, keeps⟩ := Sink.flush_plain plain.accepts plain.keeps
    have sink' := sinkOf_updateSink plain.sink fun _ => (v.sinkOf c).flush.2
    refine ⟨_, _, onSink_apply v c Sink.flush, ⟨plain.updateSink accepts keeps, ?_⟩, output, ?_, ?_⟩
    · have piled : (close (w.output c)).Piled (w.output c).stack :=
        pile.piled.congr (fun _ => id) fun _ _ => rfl
      exact output ▸ piled
    · have held : (close (w.output c)).held (w.output c).stack = (w.output c).held _ :=
        held_congr fun _ _ => rfl
      rw [World.view, World.passed, sink', contents, sink]
      exact congrArg (_ ++ ·) ((congrArg (fun o => o.held o.stack) output).trans held)
    · rw [sink', sink]
      exact (if_neg before).symm

end Output

end ScriptHost
