import ScriptHost.Proofs.Embedder.Persistence
import ScriptHost.Proofs.Embedder.Services

set_option autoImplicit false

namespace ScriptHost

structure Buffer.Fits (x : Buffer) (below : List BufferId) : Prop where
  level : x.level = below.length + 1
  below : x.below = below
  handler : x.handler = none
  isOpen : x.isClosed = false
  chunk : 0 < x.chunkSize → (x.held.length : Int) < x.chunkSize

structure Buffer.Stands (x : Buffer) (below : List BufferId) : Prop where
  level : x.level = below.length + 1
  below : x.below = below
  handler : x.handler = none
  chunk : 0 < x.chunkSize → (x.held.length : Int) < x.chunkSize

def Buffer.emptied (x : Buffer) : Buffer := { x with held := [] }

@[simp] theorem Buffer.held_emptied (x : Buffer) : x.emptied.held = [] := rfl

theorem Buffer.Stands.refill {x y : Buffer} {below : List BufferId} (stands : x.Stands below)
    (same : y.emptied = x.emptied)
    (chunk : 0 < x.chunkSize → (y.held.length : Int) < x.chunkSize) : y.Stands below where
  level := (congrArg Buffer.level same :).trans stands.level
  below := (congrArg Buffer.below same :).trans stands.below
  handler := (congrArg Buffer.handler same :).trans stands.handler
  chunk := by
    have size : y.chunkSize = x.chunkSize := (congrArg Buffer.chunkSize same :)
    rwa [size]

theorem Buffer.fits_iff (x : Buffer) (below : List BufferId) :
    x.Fits below ↔ x.Stands below ∧ x.isClosed = false := by
  constructor
  next => exact fun fits => ⟨⟨fits.level, fits.below, fits.handler, fits.chunk⟩, fits.isOpen⟩
  next => exact fun ⟨stands, isOpen⟩ =>
    ⟨stands.level, stands.below, stands.handler, isOpen, stands.chunk⟩

namespace Output

def Piled (o : Output) : List BufferId → Prop
  | [] => True
  | b :: below => o.buffers.has b ∧ b ∉ below ∧ (o.buffer b).Stands below ∧ o.Piled below

def Stacked (o : Output) : List BufferId → Prop
  | [] => True
  | b :: below => o.buffers.has b ∧ b ∉ below ∧ (o.buffer b).Fits below ∧ o.Stacked below

def held (o : Output) : List BufferId → Bytes
  | [] => []
  | b :: below => o.held below ++ (o.buffer b).held

variable {o o' : Output}

theorem held_append (o : Output) (upper lower : List BufferId) :
    o.held (upper ++ lower) = o.held lower ++ o.held upper := by
  induction upper with
  | nil => exact (List.append_nil _).symm
  | cons b upper ih =>
    show o.held (upper ++ lower) ++ _ = o.held lower ++ (o.held upper ++ _)
    rw [ih, List.append_assoc]

theorem held_congr {route : List BufferId} (same : ∀ b ∈ route, o'.buffer b = o.buffer b) :
    o'.held route = o.held route := by
  induction route with
  | nil => rfl
  | cons b below ih =>
    show o'.held below ++ _ = o.held below ++ _
    rw [ih fun d member => same d (List.mem_cons_of_mem _ member), same b List.mem_cons_self]

theorem stacked_iff (o : Output) (route : List BufferId) :
    o.Stacked route ↔ o.Piled route ∧ ∀ b ∈ route, (o.buffer b).isClosed = false := by
  induction route with
  | nil => simp [Stacked, Piled]
  | cons b below ih =>
    rw [Stacked, Piled, ih, Buffer.fits_iff, List.forall_mem_cons]
    grind

namespace Piled

variable {route upper rest : List BufferId}

theorem mono (piled : o.Piled route) (known : ∀ b, o.buffers.has b → o'.buffers.has b)
    (stands : ∀ b ∈ route, ∀ below, (o.buffer b).Stands below → (o'.buffer b).Stands below) :
    o'.Piled route := by
  induction route with
  | nil => trivial
  | cons b below ih =>
    obtain ⟨there, apart, here, rest⟩ := piled
    refine ⟨known b there, apart, stands b List.mem_cons_self below here, ?_⟩
    exact ih rest fun d member => stands d (List.mem_cons_of_mem _ member)

theorem congr (piled : o.Piled route) (known : ∀ b, o.buffers.has b → o'.buffers.has b)
    (same : ∀ b ∈ route, o'.buffer b = o.buffer b) : o'.Piled route :=
  piled.mono known fun b member below here => by rwa [same b member]

theorem lower (piled : o.Piled (upper ++ rest)) : o.Piled rest := by
  induction upper with
  | nil => exact piled
  | cons b upper ih => exact ih piled.2.2.2

theorem apart (piled : o.Piled (upper ++ rest)) : ∀ b ∈ upper, b ∉ rest := by
  induction upper with
  | nil => exact fun b member => nomatch member
  | cons d upper ih =>
    intro b member inside
    rcases List.mem_cons.1 member with rfl | later
    · exact piled.2.1 (List.mem_append_right _ inside)
    · exact ih piled.2.2.2 b later inside

theorem known (piled : o.Piled route) : ∀ b ∈ route, o.buffers.has b := by
  induction route with
  | nil => exact fun b member => nomatch member
  | cons d below ih =>
    intro b member
    rcases List.mem_cons.1 member with rfl | later
    · exact piled.1
    · exact ih piled.2.2.2 b later

end Piled

theorem Stacked.piled {route : List BufferId} (stacked : o.Stacked route) : o.Piled route :=
  ((stacked_iff o route).1 stacked).1

theorem Stacked.lower {upper lower : List BufferId} (stacked : o.Stacked (upper ++ lower)) :
    o.Stacked lower := by
  rw [stacked_iff] at *
  exact ⟨stacked.1.lower, fun b member => stacked.2 b (List.mem_append_right _ member)⟩

theorem Stacked.congr {route : List BufferId} (stacked : o.Stacked route)
    (known : ∀ b, o.buffers.has b → o'.buffers.has b)
    (same : ∀ b ∈ route, o'.buffer b = o.buffer b) : o'.Stacked route := by
  rw [stacked_iff] at *
  exact ⟨stacked.1.congr known same, fun b member => by rw [same b member, stacked.2 b member]⟩

theorem Stacked.replace {upper lower : List BufferId} (stacked : o.Stacked (upper ++ lower))
    (known : ∀ b, o.buffers.has b → o'.buffers.has b)
    (same : ∀ b ∈ upper, o'.buffer b = o.buffer b) (rest : o'.Stacked lower) :
    o'.Stacked (upper ++ lower) := by
  induction upper with
  | nil => exact rest
  | cons b upper ih =>
    obtain ⟨there, apart, fits, above⟩ := stacked
    refine ⟨known b there, apart, same b List.mem_cons_self ▸ fits, ?_⟩
    exact ih above fun d member => same d (List.mem_cons_of_mem _ member)

theorem buffer_modify (o : Output) (b d : BufferId) (f : Buffer → Buffer) :
    (o.modify b f).buffer d = if b = d ∧ o.buffers.has b then f (o.buffer d) else o.buffer d :=
  Pool.get_modify ..

theorem buffer_modify_self (o : Output) {b : BufferId} (f : Buffer → Buffer)
    (known : o.buffers.has b) : (o.modify b f).buffer b = f (o.buffer b) :=
  (o.buffer_modify b b f).trans (if_pos ⟨rfl, known⟩)

theorem buffer_modify_of_ne (o : Output) {b d : BufferId} (f : Buffer → Buffer) (apart : d ≠ b) :
    (o.modify b f).buffer d = o.buffer d :=
  (o.buffer_modify b d f).trans (if_neg fun same => apart same.1.symm)

end Output

namespace World

variable {τ : Type}

def output (w : World τ) (c : ContextId) : Output := (w.context c).output

def sinkOf (w : World τ) (c : ContextId) : Sink := w.sinks.get (w.output c).sink

structure HasPlainSink (w : World τ) (c : ContextId) : Prop where
  context : w.contexts.has c
  sink : w.sinks.has (w.output c).sink
  accepts : (w.sinkOf c).writeError = none
  keeps : (w.sinkOf c).discards = false

def passed (w : World τ) (c : ContextId) (route : List BufferId) : Bytes :=
  (w.sinkOf c).contents ++ (w.output c).held route

def updateOutput (w : World τ) (c : ContextId) (f : Output → Output) : World τ :=
  w.updateContext c fun x => { x with output := f x.output }

def updateSink (w : World τ) (c : ContextId) (f : Sink → Sink) : World τ :=
  { w with sinks := w.sinks.modify (w.output c).sink f }

variable {w w' : World τ} {c : ContextId}

theorem output_updateOutput (known : w.contexts.has c) (f : Output → Output) :
    (w.updateOutput c f).output c = f (w.output c) := by
  unfold output updateOutput
  rw [context_updateContext, if_pos ⟨rfl, known⟩]

theorem updateOutput_unknown (w : World τ) (c : ContextId) {b : BufferId}
    (unknown : ¬ (w.output c).buffers.has b) (f : Buffer → Buffer) :
    w.updateOutput c (·.modify b f) = w := by
  have same : (w.output c).modify b f = w.output c := by
    rw [Output.modify, Pool.modify_eq_self _ _ fun known => absurd known unknown]
  have kept : w.contexts.modify c (fun x => { x with output := x.output.modify b f }) = w.contexts :=
    w.contexts.modify_eq_self c fun _ => congrArg (fun o => { w.context c with output := o }) same
  rw [updateOutput, updateContext, kept]

theorem sinkOf_updateOutput (known : w.contexts.has c) {f : Output → Output}
    (sink : ∀ o, (f o).sink = o.sink) : (w.updateOutput c f).sinkOf c = w.sinkOf c := by
  unfold sinkOf
  rw [output_updateOutput known, sink]
  rfl

theorem HasPlainSink.updateOutput (plain : w.HasPlainSink c) {f : Output → Output}
    (sink : ∀ o, (f o).sink = o.sink) : (w.updateOutput c f).HasPlainSink c := by
  have same := sinkOf_updateOutput plain.context sink
  refine ⟨(w.contexts.has_modify c c _).trans plain.context, ?_, ?_, ?_⟩
  · rw [output_updateOutput plain.context, sink]
    exact plain.sink
  · rw [same]
    exact plain.accepts
  · rw [same]
    exact plain.keeps

theorem sinkOf_updateSink (known : w.sinks.has (w.output c).sink) (f : Sink → Sink) :
    (w.updateSink c f).sinkOf c = f (w.sinkOf c) :=
  Pool.get_modify_self w.sinks _ f known

theorem HasPlainSink.updateSink (plain : w.HasPlainSink c) {f : Sink → Sink}
    (accepts : (f (w.sinkOf c)).writeError = none) (keeps : (f (w.sinkOf c)).discards = false) :
    (w.updateSink c f).HasPlainSink c := by
  have same := sinkOf_updateSink plain.sink f
  refine ⟨plain.context, (w.sinks.has_modify _ _ f).trans plain.sink, ?_, ?_⟩
  · rw [same]
    exact accepts
  · rw [same]
    exact keeps

theorem passed_cons (w : World τ) (c : ContextId) (b : BufferId) (below : List BufferId) :
    w.passed c (b :: below) = w.passed c below ++ ((w.output c).buffer b).held :=
  (List.append_assoc ..).symm

structure Touches (w w' : World τ) (c : ContextId) (b : BufferId) (x : Buffer) : Prop where
  plain : w'.HasPlainSink c
  stack : (w'.output c).stack = (w.output c).stack
  known : ∀ d, (w.output c).buffers.has d → (w'.output c).buffers.has d
  others : ∀ d, d ≠ b → (w'.output c).buffer d = (w.output c).buffer d
  own : (w'.output c).buffer b = x
  sink : w'.sinkOf c = w.sinkOf c

theorem touches_modify (plain : w.HasPlainSink c) {b : BufferId}
    (known : (w.output c).buffers.has b) (f : Buffer → Buffer) :
    w.Touches (w.updateOutput c (·.modify b f)) c b (f ((w.output c).buffer b)) := by
  have output := output_updateOutput plain.context (·.modify b f)
  refine ⟨plain.updateOutput fun _ => rfl, ?_, ?_, ?_, ?_, ?_⟩
  · rw [output]
    rfl
  · intro d there
    rw [output]
    exact (Pool.has_modify ..).trans there
  · intro d apart
    rw [output]
    exact Output.buffer_modify_of_ne _ f apart
  · rw [output]
    exact Output.buffer_modify_self _ f known
  · exact sinkOf_updateOutput plain.context fun _ => rfl

namespace Touches

variable {b : BufferId} {x : Buffer} {route : List BufferId}

theorem apart (touches : w.Touches w' c b x) (apart : b ∉ route) :
    ∀ d ∈ route, (w'.output c).buffer d = (w.output c).buffer d :=
  fun d member => touches.others d fun same => apart (same ▸ member)

theorem stacked (touches : w.Touches w' c b x) (apart : b ∉ route)
    (stacked : (w.output c).Stacked route) : (w'.output c).Stacked route :=
  stacked.congr touches.known (touches.apart apart)

theorem passed (touches : w.Touches w' c b x) (apart : b ∉ route) :
    w'.passed c route = w.passed c route := by
  unfold World.passed
  rw [touches.sink, Output.held_congr (touches.apart apart)]

end Touches

structure Passes (w w' : World τ) (c : ContextId) (route : List BufferId) (text : Bytes) :
    Prop where
  plain : w'.HasPlainSink c
  stack : (w'.output c).stack = (w.output c).stack
  known : ∀ b, (w.output c).buffers.has b → (w'.output c).buffers.has b
  others : ∀ b, b ∉ route → (w'.output c).buffer b = (w.output c).buffer b
  stacked : (w'.output c).Stacked route
  passed : w'.passed c route = w.passed c route ++ text

structure Drains (w w' : World τ) (c : ContextId) (b : BufferId) (below : List BufferId) :
    Prop where
  plain : w'.HasPlainSink c
  stack : (w'.output c).stack = (w.output c).stack
  known : ∀ d, (w.output c).buffers.has d → (w'.output c).buffers.has d
  others : ∀ d, d ∉ b :: below → (w'.output c).buffer d = (w.output c).buffer d
  emptied : (w'.output c).buffer b = { (w.output c).buffer b with held := [] }
  stacked : (w'.output c).Stacked below
  passed : w'.passed c below = w.passed c below ++ ((w.output c).buffer b).held

end World

def Sink.Gains (s s' : Sink) (text : Bytes) : Prop :=
  ∃ parts : List Bytes, parts.flatten = text ∧ s' = { s with journal := s.journal ++ parts.map .wrote }

theorem Sink.Gains.refl (s : Sink) : s.Gains s [] := ⟨[], rfl, by simp⟩

theorem Sink.Gains.trans {s s' s'' : Sink} {text more : Bytes} (first : s.Gains s' text)
    (last : s'.Gains s'' more) : s.Gains s'' (text ++ more) := by
  obtain ⟨parts, rfl, rfl⟩ := first
  obtain ⟨others, rfl, rfl⟩ := last
  exact ⟨parts ++ others, by simp, by simp⟩

namespace World

variable {τ : Type}

structure Shifts (w w' : World τ) (c : ContextId) : Prop where
  plain : w'.HasPlainSink c
  output : w'.output c = { w.output c with buffers := (w'.output c).buffers }
  known : ∀ b, (w.output c).buffers.has b → (w'.output c).buffers.has b
  held : ∀ b, ((w'.output c).buffer b).emptied = ((w.output c).buffer b).emptied
  arrived : ∃ text, (w.sinkOf c).Gains (w'.sinkOf c) text

structure Pours (w w' : World τ) (c : ContextId) (route : List BufferId) (text : Bytes) : Prop
    extends w.Shifts w' c where
  others : ∀ b, b ∉ route → (w'.output c).buffer b = (w.output c).buffer b
  stands : ∀ b below, ((w.output c).buffer b).Stands below → ((w'.output c).buffer b).Stands below
  passed : w'.passed c route = w.passed c route ++ text

variable {w w' w'' : World τ} {c : ContextId} {b : BufferId} {route : List BufferId}

theorem Shifts.trans (first : w.Shifts w' c) (last : w'.Shifts w'' c) : w.Shifts w'' c where
  plain := last.plain
  output := by rw [last.output, first.output]
  known b there := last.known b (first.known b there)
  held b := (last.held b).trans (first.held b)
  arrived := by
    obtain ⟨text, gains⟩ := first.arrived
    obtain ⟨more, gains'⟩ := last.arrived
    exact ⟨text ++ more, gains.trans gains'⟩

theorem Pours.refl (plain : w.HasPlainSink c) (route : List BufferId) : w.Pours w c route [] where
  plain := plain
  output := rfl
  known _ := id
  held _ := rfl
  arrived := ⟨[], .refl _⟩
  others _ _ := rfl
  stands _ _ := id
  passed := (List.append_nil _).symm

theorem Pours.piled {text : Bytes} (pours : w.Pours w' c route text) {pile : List BufferId}
    (piled : (w.output c).Piled pile) : (w'.output c).Piled pile :=
  piled.mono pours.known fun b _ => pours.stands b

theorem Shifts.isClosed (shifts : w.Shifts w' c) (b : BufferId) :
    ((w'.output c).buffer b).isClosed = ((w.output c).buffer b).isClosed :=
  (congrArg Buffer.isClosed (shifts.held b) :)

theorem Shifts.stack (shifts : w.Shifts w' c) : (w'.output c).stack = (w.output c).stack :=
  (congrArg Output.stack shifts.output :)

theorem Shifts.isRootClosed (shifts : w.Shifts w' c) :
    (w'.output c).isRootClosed = (w.output c).isRootClosed :=
  (congrArg Output.isRootClosed shifts.output :)

theorem Pours.stacked {text : Bytes} (pours : w.Pours w' c route text)
    (stacked : (w.output c).Stacked route) : (w'.output c).Stacked route := by
  rw [Output.stacked_iff] at *
  exact ⟨pours.piled stacked.1, fun b member => by rw [pours.isClosed b, stacked.2 b member]⟩

theorem Touches.shifts {x : Buffer} (touches : w.Touches w' c b x)
    (output : w'.output c = { w.output c with buffers := (w'.output c).buffers })
    (held : x.emptied = ((w.output c).buffer b).emptied) : w.Shifts w' c where
  plain := touches.plain
  output := output
  known := touches.known
  held d := by
    by_cases same : d = b
    · rw [same, touches.own, held]
    · rw [touches.others d same]
  arrived := ⟨[], by rw [touches.sink]; exact .refl _⟩

theorem shifts_modify (plain : w.HasPlainSink c) (known : (w.output c).buffers.has b)
    (f : Buffer → Buffer) (held : ∀ x, (f x).emptied = x.emptied) :
    w.Shifts (w.updateOutput c (·.modify b f)) c := by
  apply (touches_modify plain known f).shifts
  · rw [output_updateOutput plain.context]
    rfl
  · exact held _

end World

namespace Sink

theorem write_plain {s : Sink} (accepts : s.writeError = none) (keeps : s.discards = false)
    (text : Bytes) :
    (s.write text).1 = (text.length, none) ∧ (s.write text).2.contents = s.contents ++ text ∧
      (s.write text).2.writeError = none ∧ (s.write text).2.discards = false := by
  simp [write, record, contents, accepts, keeps]

theorem flush_plain {s : Sink} (accepts : s.writeError = none) (keeps : s.discards = false) :
    s.flush.2.contents = s.contents ∧ s.flush.2.writeError = none ∧
      s.flush.2.discards = false := by
  unfold flush
  split
  next => simp [record, contents, accepts, keeps]
  next => exact ⟨rfl, accepts, keeps⟩

end Sink

namespace Output

open Run World

variable {τ : Type} {w : World τ} {c : ContextId} {b : BufferId} {below : List BufferId}

theorem bufferOf_apply (w : World τ) (c : ContextId) (b : BufferId) :
    bufferOf c b w = (.ok ((w.output c).buffer b), w) := rfl

theorem modifyBuffer_apply (w : World τ) (c : ContextId) (b : BufferId) (f : Buffer → Buffer) :
    modifyBuffer c b f w = (.ok (), w.updateOutput c (·.modify b f)) := rfl

theorem modifyStack_apply (w : World τ) (c : ContextId) (f : Output → Output) :
    modifyStack c f w = (.ok (), w.updateOutput c f) := rfl

theorem onSink_apply {α : Type} (w : World τ) (c : ContextId) (f : Sink → α × Sink) :
    onSink c f w = (.ok (f (w.sinkOf c)).1, w.updateSink c fun _ => (f (w.sinkOf c)).2) := rfl

def Carries (h : Host τ) (c : ContextId) (route : List BufferId) : Prop :=
  ∀ (w : World τ) (text : Bytes), w.HasPlainSink c → (w.output c).Piled route →
    ∃ w', deliver h c route text w = (.ok (text.length, none), w') ∧ w.Pours w' c route text

theorem emit_pours (h : Host τ) (carries : Carries h c below) (plain : w.HasPlainSink c)
    (known : (w.output c).buffers.has b) (apart : b ∉ below)
    (handler : ((w.output c).buffer b).handler = none) (piled : (w.output c).Piled below)
    (mode : OutputMode) :
    ∃ w', emit h c (deliver h c below) b mode w = (.ok none, w') ∧
      (w.updateOutput c (·.modify b Buffer.emptied)).Pours w' c below
        ((w.output c).buffer b).held := by
  have cleared := touches_modify plain known Buffer.emptied
  obtain ⟨w', delivered, pours⟩ := carries _ ((w.output c).buffer b).held cleared.plain
    (piled.congr cleared.known (cleared.apart apart))
  have clears : modifyBuffer c b (fun x => { x with held := [] }) w =
    (.ok (), w.updateOutput c (·.modify b Buffer.emptied)) := rfl
  rw [emit, bind_ok (bufferOf_apply w c b), bind_ok clears, handler]
  dsimp only
  rw [bind_ok (pure_apply ..)]
  split
  next empty =>
    rw [List.isEmpty_iff.1 empty]
    exact ⟨_, rfl, .refl cleared.plain below⟩
  next =>
    rw [bind_ok delivered]
    exact ⟨w', rfl, pours⟩

theorem carries_sink (h : Host τ) (c : ContextId) : Carries h c [] := by
  intro w text plain _
  obtain ⟨result, contents, accepts, keeps⟩ := Sink.write_plain plain.accepts plain.keeps text
  have sink := sinkOf_updateSink plain.sink fun _ => ((w.sinkOf c).write text).2
  refine ⟨_, (onSink_apply w c _).trans (by rw [result]), ⟨plain.updateSink accepts keeps, rfl,
    fun _ => id, fun _ => rfl, text, ?_⟩, fun _ _ => rfl, fun _ _ => id, ?_⟩
  · rw [sink]
    exact ⟨[text], by simp, by simp [Sink.write, Sink.record, plain.accepts, plain.keeps]⟩
  · unfold World.passed
    rw [sink, contents]
    exact (List.append_nil _).trans (congrArg (· ++ text) (List.append_nil _).symm)

theorem carries_route (h : Host τ) (c : ContextId) (route : List BufferId) : Carries h c route := by
  induction route with
  | nil => exact carries_sink h c
  | cons b below ih =>
    intro w text plain piled
    obtain ⟨known, apart, here, rest⟩ := piled
    let fill (x : Buffer) : Buffer := { x with held := x.held ++ text }
    have filled := touches_modify plain known fill
    have shifts := shifts_modify plain known fill fun _ => rfl
    rw [deliver, bind_ok (modifyBuffer_apply w c b _), bind_ok (bufferOf_apply _ c b)]
    generalize w.updateOutput c _ = v at filled shifts
    have known' := filled.known b known
    have others {d : BufferId} (outside : d ∉ b :: below) : d ≠ b ∧ d ∉ below := by
      simpa using outside
    rw [filled.own]
    split
    next =>
      -- The buffer is full now, and drains in the middle of the write.
      obtain ⟨w', emitted, pours⟩ := emit_pours h ih filled.plain known' apart
        (by rw [filled.own]; exact here.handler) (rest.congr filled.known (filled.apart apart)) {}
      have cleared := touches_modify filled.plain known' Buffer.emptied
      have shifts' := shifts_modify filled.plain known' Buffer.emptied fun _ => rfl
      generalize v.updateOutput c _ = u at cleared shifts' pours
      have own := (pours.others b apart).trans cleared.own
      rw [bind_ok emitted]
      refine ⟨w', rfl, ⟨(shifts.trans shifts').trans pours.toShifts, fun d outside => ?_,
        fun d below' stands => ?_, ?_⟩⟩
      · obtain ⟨apart', outside'⟩ := others outside
        rw [pours.others d outside', cleared.others d apart', filled.others d apart']
      · by_cases same : d = b
        · subst same
          apply stands.refill ((pours.held d).trans ((shifts'.held d).trans (shifts.held d)))
          rw [own]
          exact id
        · apply pours.stands
          rwa [cleared.others d same, filled.others d same]
      · rw [passed_cons, passed_cons, pours.passed, own, cleared.passed apart, filled.own,
          filled.passed apart, Buffer.held_emptied, List.append_nil]
        exact (List.append_assoc ..).symm
    next room =>
      refine ⟨v, rfl, ⟨shifts, fun d outside => filled.others d (others outside).1,
        fun d below' stands => ?_, ?_⟩⟩
      · by_cases same : d = b
        · subst same
          apply stands.refill (shifts.held d)
          intro positive
          rw [filled.own]
          exact Int.lt_of_not_ge fun full => room ⟨positive, full⟩
        · rwa [filled.others d same]
      · rw [passed_cons, passed_cons, filled.own, filled.passed apart, List.append_assoc]

theorem drainBuffer_pours (h : Host τ) (plain : w.HasPlainSink c)
    (known : (w.output c).buffers.has b) (apart : b ∉ below)
    (handler : ((w.output c).buffer b).handler = none)
    (route : ((w.output c).buffer b).below = below) (piled : (w.output c).Piled below)
    (mode : OutputMode) :
    ∃ w', drainBuffer h c b mode w = (.ok none, w') ∧
      (w.updateOutput c (·.modify b Buffer.emptied)).Pours w' c below
        ((w.output c).buffer b).held := by
  rw [drainBuffer, bind_ok (bufferOf_apply w c b), route]
  exact emit_pours h (carries_route h c below) plain known apart handler piled mode

def Takes (h : Host τ) (c : ContextId) (route : List BufferId) : Prop :=
  ∀ (w : World τ) (text : Bytes), w.HasPlainSink c → (w.output c).Stacked route →
    ∃ w', deliver h c route text w = (.ok (text.length, none), w') ∧ w.Passes w' c route text

theorem takes_route (h : Host τ) (c : ContextId) (route : List BufferId) : Takes h c route := by
  intro w text plain stacked
  obtain ⟨w', delivered, pours⟩ := carries_route h c route w text plain stacked.piled
  refine ⟨w', delivered, pours.plain, pours.stack, pours.known, pours.others,
    pours.stacked stacked, pours.passed⟩

theorem drainBuffer_drains (h : Host τ) (plain : w.HasPlainSink c)
    (known : (w.output c).buffers.has b) (apart : b ∉ below)
    (handler : ((w.output c).buffer b).handler = none)
    (route : ((w.output c).buffer b).below = below) (stacked : (w.output c).Stacked below)
    (mode : OutputMode) :
    ∃ w', drainBuffer h c b mode w = (.ok none, w') ∧ w.Drains w' c b below := by
  have cleared := touches_modify plain known Buffer.emptied
  obtain ⟨w', drained, pours⟩ :=
    drainBuffer_pours h plain known apart handler route stacked.piled mode
  refine ⟨w', drained, pours.plain, pours.stack.trans cleared.stack,
    fun d there => pours.known d (cleared.known d there), fun d outside => ?_,
    (pours.others b apart).trans cleared.own, pours.stacked (cleared.stacked apart stacked), ?_⟩
  · rw [List.mem_cons, not_or] at outside
    exact (pours.others d outside.2).trans (cleared.others d outside.1)
  · rw [pours.passed, cleared.passed apart]

end Output

end ScriptHost
