import ScriptHost.Proofs.Embedder.Directness
import ScriptHost.Proofs.Output.Tapping
import ScriptHost.Proofs.Registry.Stability

set_option autoImplicit false

namespace ScriptHost

open Run Output World

variable {σ τ α β : Type} {making : List ContextId} {home : Option ContextId}

variable {t : Listener} {w v u : Recorded σ} {c e : ContextId} {b d : BufferId}

theorem Course.bufferAt (course : Course making w v) (there : (w.output c).buffers.has b) :
    (v.output c).buffers.has b ∧ (v.bufferAt c b).pristine = (w.bufferAt c b).pristine :=
  have precedes := (course.extends.contexts c (has_of_buffer there)).2.output
  ⟨precedes.has there, precedes.pristine b there⟩

structure Host.Serves (h : Host (Ledger σ)) (t : Listener) : Prop where
  follows : h.Follows
  filters : ∀ (k : Callback) (e : ContextId) (chunk : Bytes) (mode : OutputMode)
    (making : List ContextId) (home : Option ContextId) (w : Recorded σ), w.Ready making home →
    w.IsPlumbed → ∃ flows outcome v,
      (w.note (.called (.filterOutput k e chunk mode))).Flows t .code flows v ∧
      h.filterOutput k e chunk mode w =
        (outcome, v.note (.answered (.filterOutput k e chunk mode) outcome)) ∧
      (e = t.context → k = t.handler →
        flows = [] ∧ ∃ own, v = (w.note (.called (.filterOutput k e chunk mode))).setOwn own)

def World.Fits (w : World τ) (e : ContextId) (way : List BufferId) : Prop :=
  ∀ d rest, way = d :: rest → (w.output e).buffers.has d ∧ (w.bufferAt e d).below = rest

theorem World.IsPlumbed.fits (plumbed : w.IsPlumbed) (e : ContextId) (d : BufferId) :
    w.Fits e (w.bufferAt e d).below := by
  intro f rest way
  obtain ⟨there, -, onward⟩ := (plumbed e).ways d f rest way
  exact ⟨there, onward⟩

theorem World.fits_route {level : Level}
    (there : (w.output e).HasLevel level) : w.Fits e ((w.output e).route level) := by
  cases level with
  | root => exact fun _ _ way => nomatch way
  | buffer d =>
    rintro _ _ ⟨⟩
    exact ⟨there, rfl⟩

theorem World.IsPlumbed.hasLevel_top (plumbed : w.IsPlumbed) (e : ContextId) :
    (w.output e).HasLevel (w.output e).top := by
  rw [Output.top]
  split
  next => trivial
  next b below stack => exact (plumbed e).known b (by simp [stack])

theorem Level.ofWay_route (o : Output) (level : Level) : .ofWay (o.route level) = level := by
  cases level <;> rfl

namespace Output

theorem bufferOf_bufferAt (w : World τ) (c : ContextId) (b : BufferId) :
    bufferOf c b w = (.ok (w.bufferAt c b), w) := rfl

section Calls

variable {h : Host (Ledger σ)} (serves : h.Serves t)
include serves

theorem callHandler_flows (ready : w.Ready making (some e)) (plumbed : w.IsPlumbed) {k : Callback}
    (handler : (w.bufferAt e d).handler = some k) (chunk : Bytes) (mode : OutputMode) :
    ∃ flows outcome v, w.Flows t (.filtering e d chunk mode outcome) flows v ∧
      callHandler h e d k chunk mode w = (outcome, v) := by
  have changed := modifyBuffer_follows e d (fun x => { x with isStarted := true }) (fun _ => id)
    (fun _ => rfl) making w ready
  obtain ⟨flows, outcome, v, inside, answered, calm⟩ := serves.filters k e chunk
    (w.modeAt e d mode) making (some e) _ (changed.ready ready) (changed.plumbed plumbed).1
  exact ⟨_, outcome, _, .filtered chunk mode outcome handler inside calm, answered⟩

def Conveys (h : Host (Ledger σ)) (t : Listener) (making : List ContextId) (e : ContextId)
    (way : List BufferId) : Prop :=
  ∀ (text : Bytes) (v : Recorded σ), v.Ready making (some e) → v.IsPlumbed → v.Fits e way →
    ∃ flows, (v.receive e text (.ofWay way)).Flows t (.settling e) flows (deliver h e way text v).2

omit serves in
/-- What is answered goes to the buffer below, unless it is empty. -/
theorem Conveys.onward {way : List BufferId} (conveys : Conveys h t making e way)
    (ready : w.Ready making (some e)) (plumbed : w.IsPlumbed) (fits : w.Fits e way) (chunk : Bytes) :
    ∃ flows, (w.passOn e (.ofWay way) (.ok chunk)).Flows t (.settling e) flows
      ((if chunk.isEmpty then pure none else do
        return (← deliver h e way chunk).2 : Run (Ledger σ) (Option OutputError)) w).2 := by
  unfold World.passOn
  dsimp only
  split
  next => exact ⟨[], .settled w e⟩
  next =>
    obtain ⟨flows, settles⟩ := conveys chunk w ready plumbed fits
    refine ⟨flows, ?_⟩
    rw [bind_apply]
    rcases delivered : deliver h e way chunk w with ⟨_ | _, _⟩ <;> rw [delivered] at settles <;>
      exact settles

theorem emit_flows {phase : Phase} {mode : OutputMode} {ending : List Removal}
    (prompts : w.Prompts t e d phase mode u ending) (known : (w.output e).buffers.has d)
    (ready : u.Ready making (some e)) (plumbed : u.IsPlumbed)
    (conveys : Conveys h t making e (u.bufferAt e d).below) :
    ∃ flows, w.Flows t phase flows
      (emit h e (deliver h e (u.bufferAt e d).below) d mode u).2 := by
  have there := (prompts.develops.bufferAt known).1
  have cleared : Course making u (u.modifyBuffer e d Buffer.emptied) :=
    modifyBuffer_follows e d Buffer.emptied (fun _ => id) (fun _ => rfl) making u ready
  have clears : modifyBuffer e d (fun x => { x with held := [] }) u =
    (.ok (), u.modifyBuffer e d Buffer.emptied) := rfl
  have same : (u.modifyBuffer e d Buffer.emptied).bufferAt e d = (u.bufferAt e d).emptied :=
    bufferAt_modifyBuffer there _
  rw [emit, bind_ok (bufferOf_bufferAt u e d), bind_ok clears]
  cases handler : (u.bufferAt e d).handler with
  | none =>
    have fits := (cleared.plumbed plumbed).1.fits e d
    rw [same] at fits
    obtain ⟨more, settles⟩ := conveys.onward (cleared.ready ready) (cleared.plumbed plumbed).1 fits
      (u.bufferAt e d).held
    have unfiltered : ((u.modifyBuffer e d Buffer.emptied).bufferAt e d).handler = none :=
      same ▸ handler
    exact ⟨_, .drained known prompts _ (.unfiltered _ mode unfiltered) settles⟩
  | some k =>
    have filtered : ((u.modifyBuffer e d Buffer.emptied).bufferAt e d).handler = some k :=
      same ▸ handler
    obtain ⟨flows, outcome, v, filters, called⟩ := callHandler_flows serves (cleared.ready ready)
      (cleared.plumbed plumbed).1 filtered (u.bufferAt e d).held mode
    have course := cleared.trans
      ((callHandler_follows serves.follows e d k _ mode).course (cleared.ready ready) called)
    have plumbed' := (course.plumbed plumbed).1
    have fits := plumbed'.fits e d
    rw [Buffer.below_of_pristine (course.bufferAt there).2] at fits
    dsimp only
    rw [bind_apply, called]
    cases outcome with
    | error signal => exact ⟨_, .drained known prompts _ filters (.settled v e)⟩
    | ok chunk =>
      obtain ⟨more, settles⟩ := conveys.onward (course.ready ready) plumbed' fits chunk
      exact ⟨_, .drained known prompts _ filters settles⟩

theorem conveys (way : List BufferId) : Conveys h t making e way := by
  induction way with
  | nil => exact fun _ v _ _ _ => ⟨[], .settled _ e⟩
  | cons d rest ih =>
    intro text v ready plumbed fits
    obtain ⟨there, below⟩ := fits d rest rfl
    have takes : modifyBuffer e d (fun x => { x with held := x.held ++ text }) v =
      (.ok (), v.receive e text (.buffer d)) := rfl
    have course : Course making v (v.receive e text (.buffer d)) :=
      modifyBuffer_follows e d (fun x => { x with held := x.held ++ text }) (fun _ => id)
        (fun _ => rfl) making v ready
    have arrived : ((v.receive e text (.buffer d)).output e).buffers.has d :=
      (has_modifyBuffer ..).trans there
    have same : ((v.receive e text (.buffer d)).bufferAt e d).below = rest := by
      rw [World.receive, bufferAt_modifyBuffer there]
      exact below
    rw [deliver, bind_ok takes, bind_ok (bufferOf_bufferAt _ e d)]
    split
    next full =>
      have emptied := emit_flows serves (.full full) arrived (course.ready ready)
        (course.plumbed plumbed).1 (same ▸ ih)
      rw [same] at emptied
      obtain ⟨flows, settles⟩ := emptied
      refine ⟨flows, ?_⟩
      rw [bind_apply]
      rcases emitted : emit h e (deliver h e rest) d {} _ with ⟨_ | _, _⟩ <;>
        rw [emitted] at settles <;> exact settles
    next => exact ⟨[], .settled _ e⟩

end Calls

section Requests

variable {h : Host (Ledger σ)} (serves : h.Serves t) (ready : w.Ready making (some e))
  (plumbed : w.IsPlumbed)
include serves ready plumbed

theorem writeTo_flows {a : Action} {level : Level} {text : Bytes}
    (written : a.written? w e = some (level, text)) (there : (w.output e).HasLevel level) :
    ∃ flows, w.Flows t (.asked (.act e a)) flows (writeTo h e level text w).2 := by
  obtain ⟨flows, settles⟩ := conveys serves (route (w.output e) level) text w ready plumbed
    (fits_route there)
  rw [Level.ofWay_route] at settles
  exact ⟨_, .wrote written there settles⟩

omit serves ready plumbed in
theorem writeTo_unknown (unknown : ¬ (w.output e).buffers.has d) (text : Bytes) :
    writeTo h e (.buffer d) text w = (.ok (text.length, none), w) := by
  have lost : modifyBuffer e d (fun x => { x with held := x.held ++ text }) w = (.ok (), w) :=
    congrArg (Prod.mk (Except.ok ())) (w.updateOutput_unknown e unknown _)
  rw [writeTo, bind_ok (context_apply w e), route, deliver, bind_ok lost,
    bind_ok (bufferOf_bufferAt w e d), bufferAt_unknown unknown]
  rfl

theorem write_flows {a : Action} {text : Bytes}
    (written : a.written? w e = some ((w.output e).top, text)) :
    ∃ flows, w.Flows t (.asked (.act e a)) flows (write h e text w).2 :=
  writeTo_flows serves ready plumbed written (plumbed.hasLevel_top e)

theorem echoBytes_flows {a : Action} {text : Bytes}
    (written : a.written? w e = some ((w.output e).top, text)) :
    ∃ flows, w.Flows t (.asked (.act e a)) flows (echoBytes h e text w).2 := by
  obtain ⟨flows, wrote⟩ := write_flows serves ready plumbed written
  refine ⟨flows, ?_⟩
  rw [echoBytes, bind_apply]
  rcases result : write h e text w with ⟨_ | _, _⟩ <;> rw [result] at wrote <;> exact wrote

omit serves ready plumbed in
theorem emit_unknown {pass : Bytes → Run (Ledger σ) (Nat × Option OutputError)}
    (unknown : ¬ (w.output e).buffers.has d) (mode : OutputMode) :
    emit h e pass d mode w = (.ok none, w) := by
  rw [emit, bind_ok (bufferOf_bufferAt w e d), bind_ok (modifyBuffer_apply w e d _),
    w.updateOutput_unknown e unknown, bufferAt_unknown unknown]
  rfl

theorem flush_flows (level : Level) :
    ∃ flows, w.Flows t (.asked (.act e (.flush level))) flows (flush h e level w).2 := by
  cases level with
  | root => exact ⟨[], .rootFlushed w e⟩
  | buffer d =>
    rw [flush, drainBuffer, bind_ok (bufferOf_bufferAt w e d)]
    by_cases known : (w.output e).buffers.has d
    · exact emit_flows serves .flushed known ready plumbed (conveys serves _)
    · rw [emit_unknown known]
      exact ⟨[], .idle fun _ => known⟩

theorem clean_apply (erasable : (w.bufferAt e d).isErasable) :
    ∃ flows outcome v, w.Flows t (.filtering e d (w.bufferAt e d).held { clean := true } outcome)
      flows v ∧ clean h e (.buffer d) w = (outcome.map fun _ => none, v.cleared e d none outcome) := by
  rw [clean, bind_ok (bufferOf_bufferAt w e d), if_neg (by simpa using erasable)]
  cases handler : (w.bufferAt e d).handler with
  | none => exact ⟨_, .ok (w.bufferAt e d).held, w, .unfiltered _ _ handler, rfl⟩
  | some k =>
    obtain ⟨flows, outcome, v, filters, called⟩ := callHandler_flows serves ready plumbed handler
      (w.bufferAt e d).held { clean := true }
    refine ⟨flows, outcome, v, filters, ?_⟩
    dsimp only
    rw [bind_apply, called]
    cases outcome <;> rfl

omit serves ready plumbed in
theorem clean_refused (lasting : (w.bufferAt e d).isErasable = false) :
    clean h e (.buffer d) w = (.ok (some .notErasable), w) := by
  rw [clean, bind_ok (bufferOf_bufferAt w e d), if_pos (by simpa using lasting)]
  rfl

theorem clean_flows (level : Level) :
    ∃ flows, w.Flows t (.asked (.act e (.clean level))) flows (clean h e level w).2 := by
  cases level with
  | root => exact ⟨[], .idle fun _ => trivial⟩
  | buffer d =>
    cases erasable : (w.bufferAt e d).isErasable with
    | true =>
      obtain ⟨flows, outcome, v, filters, cleaned⟩ := clean_apply serves ready plumbed erasable
      rw [cleaned]
      exact ⟨_, .cleared .cleaned erasable outcome filters⟩
    | false =>
      rw [clean_refused erasable]
      exact ⟨[], .idle fun _ => erasable⟩

theorem discard_flows :
    ∃ flows, w.Flows t (.asked (.act e .discardBuffer)) flows (discard h e w).2 := by
  rw [discard, bind_ok (context_apply w e)]
  cases top : (w.context e).output.stack with
  | nil =>
    refine ⟨[], .idle fun _ b below top' => ?_⟩
    cases top.symm.trans top'
  | cons d below =>
    dsimp only
    cases erasable : (w.bufferAt e d).isErasable with
    | true =>
      obtain ⟨flows, outcome, v, filters, cleaned⟩ := clean_apply serves ready plumbed erasable
      rw [bind_apply, cleaned]
      cases outcome with
      | error signal => exact ⟨_, .cleared (.discarded top) erasable _ filters⟩
      | ok answer => exact ⟨_, .cleared (.discarded top) erasable _ filters⟩
    | false =>
      rw [bind_ok (clean_refused erasable)]
      refine ⟨[], .idle fun _ b below top' => ?_⟩
      cases top.symm.trans top'
      exact erasable

omit serves ready plumbed in
theorem closeRoot_flows {a : Action} (closes : a = .closeLevel .root ∨ a = .flushAll) :
    ∃ flows, w.Flows t (.asked (.act e a)) flows (close h e .root w).2 := by
  rw [close, bind_ok (context_apply w e)]
  cases isClosed : (w.context e).output.isRootClosed with
  | true =>
    refine ⟨[], .idle fun _ => ?_⟩
    rcases closes with rfl | rfl
    · exact isClosed
    · trivial
  | false => exact ⟨[], .rootClosed closes isClosed⟩

theorem close_flows (level : Level) (apart : e = t.context → level ≠ .buffer t.buffer) :
    ∃ flows, w.Flows t (.asked (.act e (.closeLevel level))) flows (close h e level w).2 := by
  cases level with
  | root => exact closeRoot_flows (.inl rfl)
  | buffer d =>
    rw [close, bind_ok (bufferOf_bufferAt w e d)]
    cases isClosed : (w.bufferAt e d).isClosed with
    | true => exact ⟨[], .idle fun _ => .inl isClosed⟩
    | false =>
      rw [if_neg Bool.false_ne_true, bind_ok (modifyBuffer_apply w e d _), drainBuffer,
        bind_ok (bufferOf_bufferAt _ e d)]
      by_cases known : (w.output e).buffers.has d
      · have course : Course making w (w.closeBuffer e d) :=
          modifyBuffer_follows e d (fun x => { x with isClosed := true }) (fun _ _ => rfl)
            (fun _ => rfl) making w ready
        exact emit_flows serves (.closed isClosed fun here same => apart here (same ▸ rfl)) known
          (course.ready ready) (course.plumbed plumbed).1 (conveys serves _)
      · rw [w.updateOutput_unknown e known, emit_unknown known]
        exact ⟨[], .idle fun _ => .inr known⟩

theorem close_stops {below : List BufferId} (top : (w.output e).stack = d :: below) :
    ∃ flows, w.Flows t (.asked (.act e .stopBuffer)) flows
      (close h e (.buffer d) (w.resizeStack e below.length)).2 := by
  have known := (plumbed e).known d (by simp [top])
  have own : (w.resizeStack e below.length).bufferAt e d = w.bufferAt e d := by
    rw [World.bufferAt, output_resizeStack (has_of_buffer known)]
    rfl
  rw [close, bind_ok (bufferOf_bufferAt _ e d), own]
  cases isClosed : (w.bufferAt e d).isClosed with
  | true => exact ⟨_, .stoppedAgain top isClosed⟩
  | false =>
    have resizes : Course making w (w.resizeStack e below.length) :=
      modifyStack_follows e (·.resize below.length) (fun _ => .resized _) making w ready
    have closes : Course making (w.resizeStack e below.length)
        ((w.resizeStack e below.length).closeBuffer e d) :=
      modifyBuffer_follows e d (fun x => { x with isClosed := true }) (fun _ _ => rfl)
        (fun _ => rfl) making _ (resizes.ready ready)
    have course := resizes.trans closes
    rw [if_neg Bool.false_ne_true, bind_ok (modifyBuffer_apply _ e d _), drainBuffer,
      bind_ok (bufferOf_bufferAt _ e d)]
    exact emit_flows serves (.stopped top isClosed) known (course.ready ready)
      (course.plumbed plumbed).1 (conveys serves _)

theorem stop_flows : ∃ flows, w.Flows t (.asked (.act e .stopBuffer)) flows (stop h e w).2 := by
  rw [stop, bind_ok (context_apply w e)]
  cases top : (w.context e).output.stack with
  | nil => exact ⟨[], .idle fun _ => top⟩
  | cons d below =>
    obtain ⟨flows, stops⟩ := close_stops serves ready plumbed top
    have resized : modifyStack e (·.resize below.length) w =
      (.ok (), w.resizeStack e below.length) := rfl
    refine ⟨flows, ?_⟩
    dsimp only
    rw [bind_ok resized, bind_apply]
    rcases closed : close h e (.buffer d) (w.resizeStack e below.length) with ⟨_ | _, _⟩ <;>
      rw [closed] at stops <;> exact stops

omit ready plumbed in
theorem stopAll_flows (rounds : Nat) (w : Recorded σ) (ready : w.Ready making (some e))
    (plumbed : w.IsPlumbed) : ∃ flows, w.Flows t (.asked (.act e .flushAll)) flows
      ((stopAll h e rounds >>= fun _ => do let _ ← close h e .root) w).2 := by
  induction rounds generalizing w with
  | zero => exact ⟨[], .idle fun _ => trivial⟩
  | succ rounds ih =>
    obtain ⟨flows, stops⟩ := stop_flows serves ready plumbed
    have course := stop_follows serves.follows e making w ready
    rw [stopAll, bind_assoc, bind_apply]
    rcases stopped : stop h e w with ⟨signal | removed, v⟩ <;> rw [stopped] at stops course
    · exact ⟨_, .stopped stops (.idle fun _ => trivial)⟩
    · cases removed with
      | some b =>
        obtain ⟨more, rest⟩ := ih v (course.ready ready) (course.plumbed plumbed).1
        exact ⟨_, .stopped stops rest⟩
      | none =>
        obtain ⟨more, closes⟩ := closeRoot_flows (w := v) (h := h) (e := e) (t := t) (.inr rfl)
        refine ⟨flows ++ more, .stopped stops ?_⟩
        show v.Flows t _ more ((do let _ ← close h e .root) v).2
        rw [bind_apply]
        rcases closed : close h e .root v with ⟨_ | _, _⟩ <;> rw [closed] at closes <;> exact closes

end Requests

end Output

def Action.isOutput : Action → Bool
  | echo .. | echoBytes .. | write .. | writeTo .. | startBuffer .. | stopBuffer | discardBuffer
  | flush .. | clean .. | closeLevel .. | flushAll => true
  | _ => false

def Operation.IsOutputBut (c : ContextId) (b : BufferId) : Operation → Prop
  | .act e a => a.isOutput ∧ (e = c → a ≠ .closeLevel (.buffer b))
  | _ => False

theorem Action.perform_flows {h : Host (Ledger σ)} (serves : h.Serves t)
    (ready : w.Ready making (some e)) (plumbed : w.IsPlumbed) {a : Action} (isOutput : a.isOutput)
    (apart : e = t.context → a ≠ .closeLevel (.buffer t.buffer)) :
    ∃ flows, w.Flows t (.asked (.act e a)) flows (a.perform h e w).2 := by
  cases a with
  | echo x =>
    have told : Output.echo h e x w = Output.echoBytes h e (w.textOf x) w := by
      rw [Output.echo, bind_ok (w.textOf_apply x)]
    rw [perform, told]
    exact echoBytes_flows serves ready plumbed rfl
  | echoBytes text => exact echoBytes_flows serves ready plumbed rfl
  | write text => exact write_flows serves ready plumbed rfl
  | writeTo level text =>
    by_cases there : (w.output e).HasLevel level
    · exact writeTo_flows serves ready plumbed rfl there
    · cases level with
      | root => exact absurd trivial there
      | buffer d =>
        rw [perform, writeTo_unknown there]
        exact ⟨[], .idle fun _ => there⟩
  | startBuffer handler chunkSize isErasable =>
    exact ⟨_, .started (ready.present e rfl) handler chunkSize isErasable⟩
  | stopBuffer => exact stop_flows serves ready plumbed
  | discardBuffer => exact discard_flows serves ready plumbed
  | flush level => exact flush_flows serves ready plumbed level
  | clean level => exact clean_flows serves ready plumbed level
  | closeLevel level =>
    exact close_flows serves ready plumbed level fun here same => apart here (same ▸ rfl)
  | flushAll => exact stopAll_flows serves _ w ready plumbed
  | _ => cases isOutput

theorem Operation.request_flows {h : Host (Ledger σ)} (serves : h.Serves t) (sound : w.Sound)
    (plumbed : w.IsPlumbed) {o : Operation} (isOutput : o.IsOutputBut t.context t.buffer) :
    ∃ flows, w.Flows t (.asked o) flows (o.request h w).2 := by
  cases o with
  | act e a =>
    unfold request
    split
    next grounded =>
      obtain ⟨there, -⟩ := Bool.and_eq_true_iff.1 grounded
      exact Action.perform_flows serves (sound.readyFor there) plumbed isOutput.1 isOutput.2
    next stray =>
      refine ⟨[], .idle fun there => absurd ?_ stray⟩
      rw [isGrounded, there, Bool.true_and]
      cases a <;> first | rfl | cases isOutput.1
  | _ => cases isOutput

theorem Code.run_flows {ρ : Type} {h : Host (Ledger σ)} (serves : h.Serves t)
    (scripted : h.IsScripted) {code : Code σ ρ}
    (asks : code.Asks (Operation.IsOutputBut t.context t.buffer)) (ready : w.Ready making home)
    (plumbed : w.IsPlumbed) (sampled : w.IsSampled) :
    ∃ flows, w.Flows t .code flows (code.run h w).2 := by
  induction code generalizing w with
  | done outcome => exact ⟨[], .done w⟩
  | look next ih => exact ih w.unrecorded (asks _) ready plumbed sampled
  | setOwn own next ih =>
    have step : Course making w (w.setOwn own) := .change (.setOwn w own)
    obtain ⟨flows, rest⟩ := ih asks (step.ready ready) plumbed (sampled.setOwn own)
    exact ⟨flows, .own own rest⟩
  | ask o next ih =>
    have course := Operation.request_course serves.follows scripted ready sampled o
    obtain ⟨flows, inside⟩ := Operation.request_flows serves (ready.sound.begin o) plumbed asks.1
    obtain ⟨more, rest⟩ := ih _ (asks.2 _) (course.ready ready) (course.plumbed plumbed).1
      (World.isSampled_note _ _)
    exact ⟨flows ++ more, .asked o _ inside rest⟩

theorem Code.run_quiet {ρ : Type} {h : Host (Ledger σ)} {code : Code σ ρ}
    (quiet : code.Asks fun _ => False) (w : Recorded σ) :
    ∃ outcome own, code.run h w = (outcome, w.setOwn own) := by
  induction code generalizing w with
  | done outcome => exact ⟨outcome, w.embedder.own, rfl⟩
  | look next ih => exact ih w.unrecorded (quiet _) w
  | setOwn own next ih =>
    obtain ⟨outcome, own', same⟩ := ih quiet (w.setOwn own)
    exact ⟨outcome, own', same⟩
  | ask o next ih => exact quiet.1.elim

theorem Code.run_isSampled {ρ : Type} {h : Host (Ledger σ)} (code : Code σ ρ)
    (sampled : w.IsSampled) : (code.run h w).2.IsSampled := by
  induction code generalizing w with
  | done outcome => exact sampled
  | look next ih => exact ih w.unrecorded sampled
  | setOwn own next ih => exact ih (sampled.setOwn own)
  | ask o next ih => exact ih _ (World.isSampled_note _ _)

theorem Script.host_serves {s : Script σ}
    (filters : ∀ k e chunk mode,
      (s.code (.filterOutput k e chunk mode)).Asks (Operation.IsOutputBut t.context t.buffer))
    (quiet : ∀ chunk mode, (s.code (.filterOutput t.handler t.context chunk mode)).Asks fun _ => False)
    (depth : Nat) : (s.host depth).Serves t := by
  induction depth with
  | zero =>
    refine ⟨s.host_follows 0, fun k e chunk mode making home w _ _ => ?_⟩
    exact ⟨[], _, _, .done _, rfl, fun _ _ => ⟨rfl, w.embedder.own, rfl⟩⟩
  | succ depth ih =>
    refine ⟨s.host_follows _, fun k e chunk mode making home w ready plumbed => ?_⟩
    by_cases own : e = t.context ∧ k = t.handler
    · obtain ⟨rfl, rfl⟩ := own
      obtain ⟨outcome, own, same⟩ := Code.run_quiet (h := s.host depth) (quiet chunk mode)
        (w.note (.called (.filterOutput t.handler t.context chunk mode)))
      refine ⟨[], outcome, _, .own own (.done _), ?_, fun _ _ => ⟨rfl, own, rfl⟩⟩
      show Call.recorded _ _ w = _
      rw [Call.recorded, same]
    · obtain ⟨flows, run⟩ := Code.run_flows ih (s.host_scripted depth) (filters k e chunk mode)
        (ready.note (.called (.filterOutput k e chunk mode))) plumbed (w.isSampled_note _)
      exact ⟨flows, _, _, run, rfl, fun here same => absurd ⟨here, same⟩ own⟩

theorem Code.asks_each {ρ : Type} {permitted : Operation → Prop} (result : ρ)
    {operations : List Operation} (all : ∀ o ∈ operations, permitted o) :
    (Code.each result operations : Code σ ρ).Asks permitted := by
  induction operations with
  | nil => trivial
  | cons o rest ih =>
    exact ⟨all o List.mem_cons_self, fun _ => ih fun p member => all p (List.mem_cons_of_mem _ member)⟩

/-- Whatever is done to the output of a context after any run, other than that the buffer itself is
closed, a buffer that is started meanwhile hears it as the protocol says, if its handler leaves the
context alone, and passes the answers on to the buffer below it. Other handlers may do what can be
done to the output. All that the handler is called with is given away, unless it unwinds while the
buffer is being cleaned. -/
theorem Script.handler_protocol {ρ ρ' : Type} (s s' : Script σ) (depth depth' : Nat)
    (before : Code σ ρ') (files : FileTree) (own : σ) (code : Code σ ρ) (t : Listener)
    (asks : code.Asks (Operation.IsOutputBut t.context t.buffer))
    (filters : ∀ k e chunk mode,
      (s.code (.filterOutput k e chunk mode)).Asks (Operation.IsOutputBut t.context t.buffer))
    (quiet : ∀ chunk mode, (s.code (.filterOutput t.handler t.context chunk mode)).Asks fun _ => False)
    {w v : Recorded σ} (reached : (before.run (s'.host depth') (.start files own)).2 = w)
    (ended : (code.run (s.host depth) w).2 = v)
    (unknown : ¬ (w.output t.context).buffers.has t.buffer)
    (there : (v.output t.context).buffers.has t.buffer)
    (handler : (v.bufferAt t.context t.buffer).handler = some t.handler) :
    ∃ flows taps, w.Flows t .code flows v ∧
      Flow.taps t.context t.buffer flows = .started :: taps ∧
      Tap.Heeds taps (v.bufferAt t.context t.buffer) (t.buffer ∈ (v.output t.context).stack) ∧
      (∀ place text, .took t.context place text (some t.buffer) ∈ flows →
        place = (v.bufferAt t.context t.buffer).parent) ∧
      ∀ heard, heard <+: taps → (∀ chunk mode, .called chunk mode none ∈ heard → mode.clean = false) →
        Tap.given heard = Tap.chunks heard := by
  subst reached ended
  have course := s'.course depth' before files own
  have plumbed := (course.plumbed (World.start_isPlumbed files own)).1
  have ready := (course.sound (World.start_sound files own)).ready
  have sampled := Code.run_isSampled (h := s'.host depth') before
    (w := .start files own) (.inl fun _ => nofun)
  obtain ⟨flows, run⟩ := Code.run_flows (Script.host_serves filters quiet depth)
    (s.host_scripted depth) asks ready plumbed sampled
  have silent : (before.run (s'.host depth') (.start files own)).2.Hears t [] :=
    ⟨fun there => absurd there unknown, fun _ => rfl⟩
  obtain ⟨taps, started, heeds⟩ :=
    (run.heeds trivial plumbed (fun _ => handler) silent).started there
  exact ⟨flows, taps, run, started, heeds, fun place text took => (run.source took).2,
    fun _ _ => Tap.given_eq_chunks⟩

def doubling : Script Unit where
  patience := 1
  code
    | .filterOutput ⟨0⟩ _ chunk _ => .done (.ok (chunk ++ chunk))
    | .filterOutput _ c chunk _ => .each chunk [.act c (.echoBytes "!")]
    | _ => .done (.error .exhausted)

def untilContext (s : Script Unit) : Recorded Unit :=
  ((Code.each () oneContext : Code Unit Unit).run (s.host 1) (.start (FileTree.make "/") ())).2

def nestedOutput : Code Unit Unit :=
  .each () [.act ⟨0⟩ (.startBuffer (some ⟨0⟩) 3 true), .act ⟨0⟩ (.echoBytes "ab"),
    .act ⟨0⟩ (.startBuffer (some ⟨1⟩) 0 true), .act ⟨0⟩ (.echoBytes "cd"),
    .act ⟨0⟩ (.flush (.buffer ⟨1⟩)), .act ⟨0⟩ .discardBuffer, .act ⟨0⟩ (.echoBytes "x"),
    .act ⟨0⟩ (.clean (.buffer ⟨0⟩)), .act ⟨0⟩ (.echoBytes "y"), .act ⟨0⟩ .flushAll]

def nestedOutputEnd : Recorded Unit := (nestedOutput.run (doubling.host 3) (untilContext doubling)).2

theorem handler_protocol_doubling :
    (nestedOutputEnd.sinkOf ⟨0⟩).contents = Bytes.ofString "abcdabcdyy" ∧
    ∃ flows taps, (untilContext doubling).Flows ⟨⟨0⟩, ⟨0⟩, ⟨0⟩⟩ .code flows nestedOutputEnd ∧
      Flow.taps ⟨0⟩ ⟨0⟩ flows = .started :: taps ∧
      Tap.Heeds taps (nestedOutputEnd.bufferAt ⟨0⟩ ⟨0⟩)
        (⟨0⟩ ∈ (nestedOutputEnd.output ⟨0⟩).stack) := by
  obtain ⟨flows, taps, run, started, heeds, -⟩ := Script.handler_protocol doubling doubling 3 1
    (.each () oneContext) (FileTree.make "/") () nestedOutput ⟨⟨0⟩, ⟨0⟩, ⟨0⟩⟩
    (Code.asks_each () fun o member => by
      simp only [List.mem_cons, List.not_mem_nil, or_false] at member
      rcases member with rfl | rfl | rfl | rfl | rfl | rfl | rfl | rfl | rfl | rfl <;>
        exact ⟨rfl, fun _ => nofun⟩)
    (by
      rintro ⟨_ | _⟩ e chunk mode
      · trivial
      · exact ⟨⟨rfl, fun _ => nofun⟩, fun _ => trivial⟩)
    (fun _ _ => trivial) rfl rfl (by decide +kernel) (by decide +kernel) (by decide +kernel)
  exact ⟨by decide +kernel, flows, taps, run, started, heeds⟩

def shownTo (k : Callback) (journal : List (Moment Unit)) : Bytes :=
  journal.flatMap fun m =>
    match m.event with
    | .called (.filterOutput k' _ chunk _) => if k' = k then chunk else []
    | _ => []

def echoed (journal : List (Moment Unit)) : Bytes :=
  journal.flatMap fun m =>
    match m.event with
    | .finished (.act _ (.echoBytes text)) _ => text
    | _ => []

def reluctant : Script Unit where
  patience := 1
  code
    | .filterOutput _ _ chunk mode =>
      .done (if mode.clean then .error (.failure (.plain "x")) else .ok chunk)
    | _ => .done (.error .exhausted)

def reluctantlyCleaned : Recorded Unit :=
  ((Code.each () [.act ⟨0⟩ (.startBuffer (some ⟨0⟩) 0 true), .act ⟨0⟩ (.echoBytes "ab"),
    .act ⟨0⟩ (.clean (.buffer ⟨0⟩))] : Code Unit Unit).run (reluctant.host 1) (untilContext reluctant)).2

theorem cleaning_keeps_shown :
    (∀ chunk mode, (reluctant.code (.filterOutput ⟨0⟩ ⟨0⟩ chunk mode)).Asks fun _ => False) ∧
    echoed reluctantlyCleaned.embedder.journal = Bytes.ofString "ab" ∧
    shownTo ⟨0⟩ reluctantlyCleaned.embedder.journal ++ (reluctantlyCleaned.bufferAt ⟨0⟩ ⟨0⟩).held ≠
      echoed reluctantlyCleaned.embedder.journal :=
  ⟨fun _ _ => trivial, by decide +kernel, by decide +kernel⟩

end ScriptHost
