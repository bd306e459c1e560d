import ScriptHost.Proofs.Output.Closing
import ScriptHost.Proofs.Output.Handling

set_option autoImplicit false

namespace ScriptHost

open Run Output

variable {σ τ : Type} {c : ContextId} {b : BufferId}

def Operation.IsEcho (c : ContextId) : Operation → Prop
  | .act e (.echo _) | .act e (.echoBytes _) | .act e (.write _) => e = c
  | _ => False

def Operation.text (w : World τ) : Operation → Bytes
  | .act _ a => a.writes w
  | _ => []

def Code.Returns {ρ : Type} (expected : ρ → Prop) : Code σ ρ → Prop
  | done outcome => ∀ a, outcome = .ok a → expected a
  | look next => ∀ w, (next w).Returns expected
  | setOwn _ next => next.Returns expected
  | ask _ next => ∀ outcome, (next outcome).Returns expected

theorem Code.run_returns {ρ : Type} {h : Host (Ledger σ)} {expected : ρ → Prop} {code : Code σ ρ}
    (returns : code.Returns expected) {w v : Recorded σ} {a : ρ} (ran : code.run h w = (.ok a, v)) :
    expected a := by
  induction code generalizing w with
  | done outcome =>
    cases ran
    exact returns a rfl
  | look next ih => exact ih _ (returns _) ran
  | setOwn own next ih => exact ih returns ran
  | ask o next ih => exact ih _ (returns _) ran

def Script.IsEchoing (s : Script σ) (k : Callback) (c : ContextId) : Prop :=
  ∀ chunk mode, (s.code (.filterOutput k c chunk mode)).Asks (Operation.IsEcho c) ∧
    (s.code (.filterOutput k c chunk mode)).Returns (· = chunk)

def Buffer.filled (x : Buffer) (text : Bytes) : Buffer := { x with held := x.held ++ text }

def Buffer.cleaned (x : Buffer) : Buffer :=
  { x with held := [], isStarted := x.isStarted || x.handler.isSome }

theorem Buffer.filled_filled (x : Buffer) (text more : Bytes) :
    (x.filled text).filled more = x.filled (text ++ more) := by
  rw [filled, filled, filled, List.append_assoc]

namespace World

def alone (w : World τ) : World Unit := { w with embedder := () }

def fill (w : World τ) (c : ContextId) (b : BufferId) (text : Bytes) : World τ :=
  w.modifyBuffer c b (·.filled text)

def announced (w : Recorded σ) (c : ContextId) (b : BufferId) (k : Callback) : Recorded σ :=
  (w.modifyBuffer c b fun x => { x with isStarted := true }).note
    (.called (.filterOutput k c (w.bufferAt c b).held
      { start := !(w.bufferAt c b).isStarted, clean := true }))

inductive Echoing (c : ContextId) (b : BufferId) (w : Recorded σ) : Bytes → Recorded σ → Prop
  | still : Echoing c b w [] w
  | own {said : Bytes} {v : Recorded σ} (before : Echoing c b w said v) (own : σ) :
      Echoing c b w said (v.setOwn own)
  | echoed {said : Bytes} {v : Recorded σ} (before : Echoing c b w said v) (o : Operation)
      (isEcho : o.IsEcho c) (room : ¬ ((v.fill c b (o.text v)).bufferAt c b).IsFull)
      (outcome : Except Signal o.Result) :
      Echoing c b w (said ++ o.text v)
        (((v.begin o).fill c b (o.text v)).finish v.embedder.running o outcome)

structure Spills (h : Host (Ledger σ)) (c : ContextId) (b : BufferId) (k : Callback) (w : Recorded σ)
    (said : Bytes) (u : Recorded σ) (o : Operation) (v : Recorded σ) : Prop where
  before : w.Echoing c b said u
  isEcho : o.IsEcho c
  full : ((u.fill c b (o.text u)).bufferAt c b).IsFull
  passed : ∃ outcome v', callHandler h c b k ((w.bufferAt c b).held ++ (said ++ o.text u)) {}
      ((u.begin o).modifyBuffer c b Buffer.emptied) = (outcome, v') ∧
    ∀ answer, outcome = .ok answer → answer = (w.bufferAt c b).held ++ (said ++ o.text u) ∧
      (o.request h (u.begin o)).2 = (deliver h c (w.bufferAt c b).below answer v').2
  after : Course [c] ((o.request h (u.begin o)).2.finish u.embedder.running o
    (o.request h (u.begin o)).1) v

inductive Cleans (h : Host (Ledger σ)) (c : ContextId) (b : BufferId) (w : Recorded σ) :
    Recorded σ → Prop
  | unheard (handler : (w.bufferAt c b).handler = none) :
      Cleans h c b w (w.modifyBuffer c b Buffer.cleaned)
  | quiet (k : Callback) (handler : (w.bufferAt c b).handler = some k) {said : Bytes}
      {u v : Recorded σ} (echoing : (w.announced c b k).Echoing c b said u)
      (ended : v.alone = (w.modifyBuffer c b Buffer.cleaned).alone) : Cleans h c b w v
  | spilled (k : Callback) (handler : (w.bufferAt c b).handler = some k) {said : Bytes}
      {u v : Recorded σ} {o : Operation}
      (spills : (w.announced c b k).Spills h c b k said u o v) : Cleans h c b w v

theorem modifyBuffer_modifyBuffer (w : World τ) (c : ContextId) (b : BufferId) (f g : Buffer → Buffer) :
    (w.modifyBuffer c b f).modifyBuffer c b g = w.modifyBuffer c b fun x => g (f x) := by
  simp only [modifyBuffer, updateOutput, updateContext, Output.modify, Pool.modify_modify]

theorem modifyBuffer_congr (w : World τ) (c : ContextId) {b : BufferId} {f g : Buffer → Buffer}
    (same : f (w.bufferAt c b) = g (w.bufferAt c b)) :
    w.modifyBuffer c b f = w.modifyBuffer c b g := by
  refine congrArg (fun contexts => { w with contexts }) (Pool.modify_congr _ c ?_)
  exact congrArg (fun buffers => { w.context c with output := { w.output c with buffers } })
    (Pool.modify_congr _ b same)

theorem fill_nil (w : World τ) (c : ContextId) (b : BufferId) : w.fill c b [] = w := by
  have same : (w.output c).modify b (·.filled []) = w.output c := by
    refine congrArg (fun buffers => { w.output c with buffers }) ?_
    exact Pool.modify_eq_self _ b fun _ => by rw [Buffer.filled, List.append_nil]
  refine congrArg (fun contexts => { w with contexts }) (Pool.modify_eq_self _ c fun _ => ?_)
  exact congrArg (fun output => { w.context c with output }) same

theorem fill_fill (w : World τ) (c : ContextId) (b : BufferId) (text more : Bytes) :
    (w.fill c b text).fill c b more = w.fill c b (text ++ more) := by
  rw [fill, fill, fill, modifyBuffer_modifyBuffer]
  simp only [Buffer.filled_filled]

theorem Echoing.alone {w v : Recorded σ} {said : Bytes} (echoing : w.Echoing c b said v) :
    v.alone = (w.fill c b said).alone := by
  induction echoing with
  | still => rw [fill_nil]
  | own _ _ ih => exact ih
  | @echoed said v _ o _ _ _ ih =>
    rw [← fill_fill]
    exact congrArg (·.fill c b (o.text v)) ih

theorem Echoing.at {w u : Recorded σ} {said : Bytes} (echoing : w.Echoing c b said u)
    (there : (w.output c).buffers.has b) :
    u.contexts.has c ∧ (u.output c).stack = (w.output c).stack ∧ (u.output c).buffers.has b ∧
      u.bufferAt c b = (w.bufferAt c b).filled said := by
  have output : u.output c = (w.fill c b said).output c :=
    congrArg (fun x : World Unit => x.output c) echoing.alone
  have there' : (u.output c).buffers.has b := by
    rw [output]
    exact (has_modifyBuffer ..).trans there
  refine ⟨has_of_buffer there', ?_, there', ?_⟩
  · rw [output]
    exact stack_modifyBuffer ..
  · rw [bufferAt, output]
    exact bufferAt_modifyBuffer there _

end World

section Echo

variable {h : Host (Ledger σ)} {w u : Recorded σ} {k : Callback} {rest : List BufferId}

theorem Output.echoBytes_apply (text : Bytes) : echoBytes h c text u =
    ((write h c text u).1.map fun _ => (), (write h c text u).2) := by
  rw [echoBytes, bind_apply]
  rcases write h c text u with ⟨_ | _, _⟩ <;> rfl

theorem Operation.request_echo {o : Operation} (isEcho : o.IsEcho c) (known : u.contexts.has c) :
    ∃ result : Except Signal (Nat × Option OutputError) → Except Signal o.Result,
      o.request h (u.begin o) = (result (write h c (o.text u) (u.begin o)).1,
        (write h c (o.text u) (u.begin o)).2) := by
  have grounded (a : Action) (always : a.isGrounded (u.begin (.act c a))) :
      (Operation.act c a).isGrounded (u.begin (.act c a)) :=
    (Bool.and_eq_true ..).mpr ⟨known, always⟩
  unfold IsEcho at isEcho
  split at isEcho
  next e x =>
    subst isEcho
    rw [request, if_pos (grounded (.echo x) rfl)]
    exact ⟨_, (bind_ok (World.textOf_apply _ x)).trans (echoBytes_apply _)⟩
  next e text =>
    subst isEcho
    rw [request, if_pos (grounded (.echoBytes text) rfl)]
    exact ⟨_, echoBytes_apply text⟩
  next e text =>
    subst isEcho
    rw [request, if_pos (grounded (.write text) rfl)]
    exact ⟨id, rfl⟩
  next => exact isEcho.elim

namespace Output

theorem write_top (top : (w.output c).stack = b :: rest) (text : Bytes) :
    write h c text w = deliver h c (b :: (w.bufferAt c b).below) text w := by
  have level : (w.context c).output.top = .buffer b := by
    rw [Output.top, show (w.context c).output.stack = _ from top]
  rw [write, bind_ok (context_apply w c), level, writeTo, bind_ok (context_apply w c)]
  rfl

theorem deliver_room {below : List BufferId} {text : Bytes}
    (room : ¬ ((w.fill c b text).bufferAt c b).IsFull) :
    deliver h c (b :: below) text w = (.ok (text.length, none), w.fill c b text) := by
  have takes : modifyBuffer c b (fun x => { x with held := x.held ++ text }) w =
    (.ok (), w.fill c b text) := rfl
  rw [deliver, bind_ok takes, bind_ok (bufferOf_apply _ c b)]
  exact congrFun (if_neg room) _

theorem deliver_full {below : List BufferId} {text : Bytes}
    (full : ((w.fill c b text).bufferAt c b).IsFull) :
    (deliver h c (b :: below) text w).2 =
      (emit h c (deliver h c below) b {} (w.fill c b text)).2 := by
  have takes : modifyBuffer c b (fun x => { x with held := x.held ++ text }) w =
    (.ok (), w.fill c b text) := rfl
  rw [deliver, bind_ok takes, bind_ok (bufferOf_apply _ c b)]
  split
  next =>
    rw [bind_apply]
    rcases emit h c (deliver h c below) b {} (w.fill c b text) with ⟨_ | _, _⟩ <;> rfl
  next room => exact absurd full room

theorem emit_handled (handler : (w.bufferAt c b).handler = some k) (below : List BufferId)
    (mode : OutputMode) :
    ∃ outcome v, callHandler h c b k (w.bufferAt c b).held mode
        (w.modifyBuffer c b Buffer.emptied) = (outcome, v) ∧
      ∀ answer, outcome = .ok answer → answer ≠ [] →
        (emit h c (deliver h c below) b mode w).2 = (deliver h c below answer v).2 := by
  rcases called : callHandler h c b k (w.bufferAt c b).held mode (w.modifyBuffer c b Buffer.emptied)
    with ⟨outcome, v⟩
  refine ⟨outcome, v, rfl, fun answer returned full => ?_⟩
  subst returned
  have clears : modifyBuffer c b (fun x => { x with held := [] }) w =
    (.ok (), w.modifyBuffer c b Buffer.emptied) := rfl
  rw [emit, bind_ok (bufferOf_apply w c b), bind_ok clears,
    show ((w.output c).buffer b).handler = _ from handler]
  dsimp only
  rw [bind_ok (show callHandler h c b k ((w.output c).buffer b).held mode _ = _ from called),
    if_neg (by simpa using full), bind_apply]
  rcases deliver h c below answer v with ⟨_ | _, _⟩ <;> rfl

end Output

variable (faithful : ∀ chunk mode (v : Recorded σ) answer v',
    h.filterOutput k c chunk mode v = (.ok answer, v') → answer = chunk)
include faithful

theorem Operation.request_echoing {o : Operation} {said : Bytes} (top : (w.output c).stack = b :: rest)
    (there : (w.output c).buffers.has b) (handler : (w.bufferAt c b).handler = some k)
    (before : w.Echoing c b said u) (isEcho : o.IsEcho c) :
    (w.Echoing c b (said ++ o.text u) ((o.request h (u.begin o)).2.finish u.embedder.running o
      (o.request h (u.begin o)).1)) ∨
    ∀ v, Course [c] ((o.request h (u.begin o)).2.finish u.embedder.running o
      (o.request h (u.begin o)).1) v → w.Spills h c b k said u o v := by
  obtain ⟨known, stack, there', own⟩ := before.at there
  obtain ⟨result, requested⟩ := Operation.request_echo (h := h) isEcho known
  have below : ((u.begin o).bufferAt c b).below = (w.bufferAt c b).below :=
    (congrArg Buffer.below own :)
  have top' : ((u.begin o).output c).stack = b :: rest := stack.trans top
  rw [write_top top', below] at requested
  by_cases full : ((u.fill c b (o.text u)).bufferAt c b).IsFull
  · refine .inr fun v after => ⟨before, isEcho, full, ?_, after⟩
    have filled : ((u.begin o).fill c b (o.text u)).bufferAt c b =
        (w.bufferAt c b).filled (said ++ o.text u) := by
      rw [← Buffer.filled_filled, ← own]
      exact World.bufferAt_modifyBuffer (w := u.begin o) there' _
    obtain ⟨outcome, v', called, passes⟩ := emit_handled (h := h) (k := k)
      (by rw [filled]; exact handler) (w.bufferAt c b).below {}
    have emptied : ((u.begin o).fill c b (o.text u)).modifyBuffer c b Buffer.emptied =
      (u.begin o).modifyBuffer c b Buffer.emptied := World.modifyBuffer_modifyBuffer ..
    rw [emptied, filled] at called
    refine ⟨outcome, v', called, fun answer returned => ?_⟩
    subst returned
    have same : answer = ((w.bufferAt c b).filled (said ++ o.text u)).held :=
      faithful _ _ _ _ _ called
    have nonempty : answer ≠ [] := by
      -- a full buffer holds something
      have own' : ((u.fill c b (o.text u)).bufferAt c b) = _ := filled
      rw [own', Buffer.IsFull, ← same] at full
      rintro rfl
      exact absurd (Int.lt_of_lt_of_le full.1 full.2) (by simp)
    refine ⟨same, ?_⟩
    rw [requested, ← passes answer rfl nonempty]
    exact deliver_full full
  · rw [show deliver h c _ _ (u.begin o) = _ from deliver_room full] at requested
    rw [requested]
    exact .inl (before.echoed o isEcho full _)

theorem Code.run_echoing {ρ : Type} {code : Code σ ρ} (asks : code.Asks (Operation.IsEcho c))
    (scripted : h.IsScripted) {said : Bytes} (top : (w.output c).stack = b :: rest)
    (there : (w.output c).buffers.has b) (handler : (w.bufferAt c b).handler = some k)
    (before : w.Echoing c b said u)
    (ready : u.Ready [c] (some c)) (sampled : u.IsSampled) :
    (∃ said, w.Echoing c b said (code.run h u).2) ∨
    ∃ said v o, w.Spills h c b k said v o (code.run h u).2 := by
  induction code generalizing u said with
  | done outcome => exact .inl ⟨said, before⟩
  | look next ih => exact ih _ (asks _) before ready sampled
  | setOwn own next ih =>
    have step : Course [c] u (u.setOwn own) := .change (.setOwn u own)
    exact ih asks (before.own own) (step.ready ready) (sampled.setOwn own)
  | ask o next ih =>
    have course := Operation.request_course scripted.follows scripted ready sampled o
    have ready' := course.ready ready
    rcases Operation.request_echoing faithful top there handler before asks.1 with
      room | spills
    · exact ih _ (asks.2 _) room ready' (World.isSampled_note _ _)
    · exact .inr ⟨said, u, o, spills _ ((next _).run_course scripted.follows scripted ready'
        (World.isSampled_note _ _))⟩

end Echo

section Clean

variable {s : Script σ} {w v : Recorded σ} {k : Callback} {rest : List BufferId}

theorem Script.host_faithful (echoing : s.IsEchoing k c) (depth : Nat) (chunk : Bytes)
    (mode : OutputMode) (w : Recorded σ) (answer : Bytes) (v : Recorded σ)
    (answered : (s.host depth).filterOutput k c chunk mode w = (.ok answer, v)) : answer = chunk := by
  cases depth with
  | zero => cases answered
  | succ depth =>
    have answered : Call.recorded (.filterOutput k c chunk mode)
        ((s.code (.filterOutput k c chunk mode)).run (s.host depth)) w = (.ok answer, v) := answered
    rw [Call.recorded] at answered
    split at answered
    next ran =>
      cases answered
      exact Code.run_returns (echoing chunk mode).2 ran

theorem World.Echoing.cleaned {u : Recorded σ} {said : Bytes}
    (echoing : (w.announced c b k).Echoing c b said u) (handler : (w.bufferAt c b).handler = some k) :
    (u.modifyBuffer c b Buffer.emptied).alone = (w.modifyBuffer c b Buffer.cleaned).alone := by
  have same := congrArg (fun x : World Unit => x.modifyBuffer c b Buffer.emptied) echoing.alone
  refine same.trans ?_
  show World.modifyBuffer (World.fill (World.modifyBuffer w.alone c b _) c b said) c b _ =
    w.alone.modifyBuffer c b _
  rw [World.fill, World.modifyBuffer_modifyBuffer, World.modifyBuffer_modifyBuffer]
  refine World.modifyBuffer_congr _ c ?_
  have handler' : (w.alone.bufferAt c b).handler = some k := handler
  simp [Buffer.cleaned, Buffer.emptied, Buffer.filled, handler']

theorem World.at_announced (there : (w.output c).buffers.has b) (k : Callback) :
    ((w.announced c b k).output c).buffers.has b ∧
      ((w.announced c b k).output c).stack = (w.output c).stack ∧
      (w.announced c b k).bufferAt c b = { w.bufferAt c b with isStarted := true } :=
  ⟨(World.has_modifyBuffer ..).trans there, World.stack_modifyBuffer .., World.bufferAt_modifyBuffer there _⟩

theorem Script.clean_handled {depth : Nat} (handler : (w.bufferAt c b).handler = some k)
    (cleaned : clean (s.host depth) c (.buffer b) w = (.ok none, v)) :
    ∃ chunk mode answer u,
      v = (u.note (.answered (.filterOutput k c chunk mode) (.ok answer))).modifyBuffer c b
        Buffer.emptied ∧
      u = ((s.code (.filterOutput k c chunk mode)).run (s.host (depth - 1)) (w.announced c b k)).2 := by
  rw [clean, bind_ok (bufferOf_apply w c b)] at cleaned
  split at cleaned
  next => cases cleaned
  next =>
  rw [show ((w.output c).buffer b).handler = some k from handler] at cleaned
  dsimp only at cleaned
  rw [bind_apply] at cleaned
  split at cleaned
  next answer u called =>
    cases cleaned
    cases depth with
    | zero => cases called
    | succ depth =>
      let mode : OutputMode := { start := !(w.bufferAt c b).isStarted, clean := true }
      have called : Call.recorded (.filterOutput k c (w.bufferAt c b).held mode)
          ((s.code _).run (s.host depth)) (w.modifyBuffer c b fun x => { x with isStarted := true }) =
          (.ok answer, u) := called
      rw [Call.recorded] at called
      split at called
      next outcome u' ran =>
        cases called
        exact ⟨_, mode, answer, u', rfl, (congrArg Prod.snd ran).symm⟩
  next => cases cleaned

theorem Script.clean_cleans (depth : Nat) (sound : w.Sound) (plumbed : w.IsPlumbed)
    (top : (w.output c).stack = b :: rest)
    (echoing : ∀ k, (w.bufferAt c b).handler = some k → s.IsEchoing k c)
    (cleaned : clean (s.host depth) c (.buffer b) w = (.ok none, v)) :
    w.Cleans (s.host (depth - 1)) c b v := by
  have there := (plumbed c).known b (by simp [top])
  have ready := sound.readyFor (World.has_of_buffer there)
  cases handler : (w.bufferAt c b).handler with
  | none =>
    rw [clean, bind_ok (bufferOf_apply w c b)] at cleaned
    split at cleaned
    next => cases cleaned
    next =>
    rw [show ((w.output c).buffer b).handler = none from handler] at cleaned
    have emptied : (w.modifyBuffer c b Buffer.emptied) = v := congrArg Prod.snd cleaned
    rw [← emptied, show w.modifyBuffer c b Buffer.emptied = w.modifyBuffer c b Buffer.cleaned from
      World.modifyBuffer_congr w c (by simp [Buffer.cleaned, Buffer.emptied, handler])]
    exact .unheard handler
  | some k =>
    obtain ⟨chunk, mode, answer, u, rfl, ran⟩ := Script.clean_handled handler cleaned
    have starts := modifyBuffer_follows c b (fun x => { x with isStarted := true }) (fun _ => id)
      (fun _ => rfl) [c] w ready
    have announced : (w.announced c b k).Ready [c] (some c) := (starts.ready ready).note _
    have scripted := s.host_scripted (depth - 1)
    have run := (s.code (.filterOutput k c chunk mode)).run_course scripted.follows scripted announced
      (World.isSampled_note _ _)
    rw [← ran] at run
    have noted : Course [c] u (u.note (.answered (.filterOutput k c chunk mode) (.ok answer))) :=
      .note _ rfl rfl
    have clears := modifyBuffer_follows c b Buffer.emptied (fun _ => id) (fun _ => rfl) [c] _
      (noted.ready (run.ready announced))
    obtain ⟨there', stack, own⟩ := World.at_announced there k
    -- whatever the handler echoes has room in the buffer, or one of its echoes fills the buffer up
    rcases Code.run_echoing (Script.host_faithful (echoing k handler) _) (echoing k handler chunk mode).1
      scripted (stack.trans top) there' (by rw [own]; exact handler) .still announced
      (World.isSampled_note _ _) with ⟨said, echoed⟩ | ⟨said, u', o, spills⟩
    · rw [← ran] at echoed
      exact .quiet k handler echoed (echoed.cleaned handler)
    · rw [← ran] at spills
      refine .spilled k handler ⟨spills.before, spills.isEcho, spills.full, spills.passed, ?_⟩
      exact spills.after.trans (noted.trans clears)

end Clean

/-- Cleaning in every run, directly or by discarding. If a buffer is on top and its handler does
nothing but echo, then what the buffer held is gone after that, with what has been echoed, and nothing
else has changed, unless an echo fills the buffer up: what it held goes to the next buffer then, with
what has been echoed so far, as soon as the handler has returned it. -/
theorem Script.cleaning_spills_when_full (s : Script σ) (depth : Nat) :
    (∀ (ρ : Type) (code : Code σ ρ) (files : FileTree) (own : σ),
      ((code.run (s.host depth) (.start files own)).2.Sound ∧
        (code.run (s.host depth) (.start files own)).2.IsPlumbed) ∧
      ∀ m ∈ s.journal depth code files own, m.world.Sound ∧ m.world.IsPlumbed) ∧
    ∀ (w v : Recorded σ) (c : ContextId) (b : BufferId) (rest : List BufferId), w.Sound →
      w.IsPlumbed → (w.output c).stack = b :: rest →
      (∀ k, (w.bufferAt c b).handler = some k → s.IsEchoing k c) →
      (clean (s.host depth) c (.buffer b) w = (.ok none, v) → w.Cleans (s.host (depth - 1)) c b v) ∧
      (Output.discard (s.host depth) c w = (.ok true, v) → ∃ u, w.Cleans (s.host (depth - 1)) c b u ∧
        v = (u.closeBuffer c b).resizeStack c rest.length) := by
  refine ⟨fun ρ code files own => ?_, fun w v c b rest sound plumbed top echoing => ⟨?_, ?_⟩⟩
  · obtain ⟨ended, each⟩ := s.plumbed depth code files own
    refine ⟨⟨(s.course depth code files own).sound (World.start_sound files own), ended⟩,
      fun m member => ⟨(Script.regular_of_journal member).sound, each m member⟩⟩
  · exact Script.clean_cleans depth sound plumbed top echoing
  · intro discarded
    rw [Output.discard, bind_ok (context_apply w c),
      show (w.context c).output.stack = b :: rest from top] at discarded
    dsimp only at discarded
    rw [bind_apply] at discarded
    split at discarded
    next refused u cleaned =>
      cases refused with
      | some error => cases discarded
      | none =>
        cases discarded
        exact ⟨u, Script.clean_cleans depth sound plumbed top echoing cleaned, rfl⟩
    next => cases discarded

def chatty (text : Bytes) : Script Unit where
  patience := 1
  code
    | .filterOutput _ c chunk mode => .each chunk (if mode.clean then [.act c (.echoBytes text)] else [])
    | _ => .done (.error .exhausted)

theorem chatty_isEchoing (text : Bytes) (k : Callback) : (chatty text).IsEchoing k ⟨0⟩ := by
  rintro chunk ⟨start, isCleaning, flush, final⟩
  cases isCleaning with
  | false => exact ⟨trivial, fun _ same => (Except.ok.inj same).symm⟩
  | true => exact ⟨⟨rfl, fun _ => trivial⟩, fun _ _ same => (Except.ok.inj same).symm⟩

def fillHalf : Code Unit Unit :=
  .each () (oneContext ++ [.act ⟨0⟩ (.startBuffer (some ⟨0⟩) 4 true), .act ⟨0⟩ (.echoBytes "ab")])

def halfFull (s : Script Unit) : Recorded Unit :=
  (fillHalf.run (s.host 3) (.start (FileTree.make "/") ())).2

def cleanedChatty (text : Bytes) : Except Signal (Option OutputError) × Recorded Unit :=
  clean ((chatty text).host 3) ⟨0⟩ (.buffer ⟨0⟩) (halfFull (chatty text))

theorem cleaning_spills_when_full_room :
    (cleanedChatty "c").1.toOption = some none ∧
    (halfFull (chatty "c")).Cleans ((chatty "c").host 2) ⟨0⟩ ⟨0⟩ (cleanedChatty "c").2 ∧
    ((cleanedChatty "c").2.sinkOf ⟨0⟩).contents = [] ∧
    ((cleanedChatty "c").2.bufferAt ⟨0⟩ ⟨0⟩).held = [] := by
  obtain ⟨runs, cleans⟩ := (chatty "c").cleaning_spills_when_full 3
  have returned : (cleanedChatty "c").1.toOption = some none := by decide +kernel
  refine ⟨returned, ?_, by decide +kernel, by decide +kernel⟩
  have start : (halfFull (chatty "c")).Sound ∧ (halfFull (chatty "c")).IsPlumbed :=
    (runs Unit fillHalf (FileTree.make "/") ()).1
  have cleaned : clean ((chatty "c").host 3) ⟨0⟩ (.buffer ⟨0⟩) (halfFull (chatty "c")) =
      (.ok none, (cleanedChatty "c").2) := by
    rw [← eq_ok_of_toOption returned, Prod.eta, cleanedChatty]
  refine (cleans _ _ ⟨0⟩ ⟨0⟩ [] start.1 start.2 (by decide +kernel) fun k _ => ?_).1 cleaned
  exact chatty_isEchoing "c" k

theorem cleaning_leaks :
    (∀ k, (chatty "cd").IsEchoing k ⟨0⟩) ∧
    ((halfFull (chatty "cd")).bufferAt ⟨0⟩ ⟨0⟩).held = Bytes.ofString "ab" ∧
    ((halfFull (chatty "cd")).sinkOf ⟨0⟩).contents = [] ∧
    (cleanedChatty "cd").1.toOption = some none ∧
    ((cleanedChatty "cd").2.sinkOf ⟨0⟩).contents = Bytes.ofString "abcd" :=
  ⟨chatty_isEchoing "cd", by decide +kernel, by decide +kernel, by decide +kernel, by decide +kernel⟩

end ScriptHost
