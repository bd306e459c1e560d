import ScriptHost.Proofs.Output.Conservation
import ScriptHost.Proofs.Output.Taps

set_option autoImplicit false

/-!
What happens to the output while the code of an embedder runs, and what of it concerns one buffer.
Nothing else changes the output: each change has the operation that asks for it as its cause, and
what one buffer gives away the next one takes.
-/

namespace ScriptHost

variable {σ τ : Type}

structure Listener where
  context : ContextId
  buffer : BufferId
  handler : Callback

def Level.ofWay : List BufferId → Level
  | [] => .root
  | b :: _ => .buffer b

namespace Buffer

def IsFull (x : Buffer) : Prop := 0 < x.chunkSize ∧ x.chunkSize ≤ x.held.length

def parent (x : Buffer) : Level := .ofWay x.below

variable {x y : Buffer}

theorem handler_of_pristine (same : x.pristine = y.pristine) : x.handler = y.handler :=
  (congrArg Buffer.handler same :)

theorem below_of_pristine (same : x.pristine = y.pristine) : x.below = y.below :=
  (congrArg Buffer.below same :)

theorem parent_of_pristine (same : x.pristine = y.pristine) : x.parent = y.parent :=
  congrArg Level.ofWay (below_of_pristine same)

end Buffer

def Output.HasLevel (o : Output) : Level → Prop
  | .root => True
  | .buffer b => o.buffers.has b

namespace World

def bufferAt (w : World τ) (c : ContextId) (b : BufferId) : Buffer := (w.output c).buffer b

def modifyBuffer (w : World τ) (c : ContextId) (b : BufferId) (f : Buffer → Buffer) : World τ :=
  w.updateOutput c (·.modify b f)

def receive (w : World τ) (c : ContextId) (text : Bytes) : Level → World τ
  | .root => w.updateSink c fun _ => ((w.sinkOf c).write text).2
  | .buffer d => w.modifyBuffer c d fun x => { x with held := x.held ++ text }

def passOn (w : World τ) (c : ContextId) (place : Level) : Except Signal Bytes → World τ
  | .ok text => if text.isEmpty then w else w.receive c text place
  | .error _ => w

def flushSink (w : World τ) (c : ContextId) : World τ :=
  w.updateSink c fun _ => (w.sinkOf c).flush.2

def closeBuffer (w : World τ) (c : ContextId) (b : BufferId) : World τ :=
  w.modifyBuffer c b fun x => { x with isClosed := true }

def resizeStack (w : World τ) (c : ContextId) (count : Nat) : World τ :=
  w.updateOutput c (·.resize count)

def modeAt (w : World τ) (c : ContextId) (b : BufferId) (mode : OutputMode) : OutputMode :=
  { mode with start := !(w.bufferAt c b).isStarted }

def summon (w : Recorded σ) (c : ContextId) (b : BufferId) (k : Callback) (chunk : Bytes)
    (mode : OutputMode) : Recorded σ :=
  (w.modifyBuffer c b fun x => { x with isStarted := true }).note
    (.called (.filterOutput k c chunk mode))

def lower (w : World τ) (c : ContextId) (b : BufferId) : Option Nat → World τ
  | none => w
  | some count => (w.closeBuffer c b).resizeStack c count

def cleared (w : World τ) (c : ContextId) (b : BufferId) (count : Option Nat) :
    Except Signal Bytes → World τ
  | .ok _ => (w.modifyBuffer c b Buffer.emptied).lower c b count
  | .error _ => w

/-- What comes off the stack when it is made lower. -/
def leaving (w : World τ) (c : ContextId) (count : Nat) : List BufferId :=
  (w.output c).stack.take ((w.output c).stack.length - count)

def removals (w : World τ) (c : ContextId) (b : BufferId) : Option Nat → List Flow
  | none => []
  | some count => (w.leaving c count).map fun d =>
    .removed c d (if d = b then .discarded else .dropped) (w.bufferAt c d).held

end World

namespace Flow

def passing (c : ContextId) (b : BufferId) (place : Level) : Except Signal Bytes → List Flow
  | .ok text => if text.isEmpty then [] else [.took c place text (some b)]
  | .error _ => []

theorem mem_passing {c e : ContextId} {b d : BufferId} {place place' : Level} {text : Bytes}
    {outcome : Except Signal Bytes}
    (member : .took c place text (some b) ∈ passing e d place' outcome) :
    e = c ∧ d = b ∧ place' = place := by
  unfold passing at member
  split at member
  next =>
    split at member
    next => cases member
    next =>
      cases List.mem_singleton.1 member
      exact ⟨rfl, rfl, rfl⟩
  next => cases member

theorem taps_passing {c : ContextId} {b : BufferId} {place : Level} (apart : place ≠ .buffer b)
    {chunk : Bytes} {mode : OutputMode} {outcome : Except Signal Bytes} :
    .called chunk mode outcome.toOption :: taps c b (passing c b place outcome) =
      Tap.draining chunk mode outcome := by
  unfold passing Tap.draining
  cases outcome with
  | error signal => rfl
  | ok text =>
    dsimp only
    split
    next => rfl
    next => simp [taps, tap?, apart]

def clearing (w : World τ) (c : ContextId) (b : BufferId) (count : Option Nat) :
    Except Signal Bytes → List Flow
  | .ok _ => (w.modifyBuffer c b Buffer.emptied).removals c b count
  | .error _ => []

theorem not_mem_clearing {w : World τ} {c e : ContextId} {b : BufferId} {count : Option Nat}
    {outcome : Except Signal Bytes} {place : Level} {text : Bytes} {source : Option BufferId} :
    .took e place text source ∉ clearing w c b count outcome := by
  unfold clearing World.removals
  split
  next =>
    split
    next => exact List.not_mem_nil
    next => simp
  next => exact List.not_mem_nil

end Flow

namespace Action

def written? (w : World τ) (c : ContextId) : Action → Option (Level × Bytes)
  | echo v => some ((w.output c).top, w.textOf v)
  | echoBytes text | write text => some ((w.output c).top, text)
  | writeTo level text => some (level, text)
  | _ => none

/-- An action that changes nothing at the output. What is left of a `flushAll` may be nothing. -/
def IsIdle (w : World τ) (c : ContextId) : Action → Prop
  | writeTo level _ => ¬ (w.output c).HasLevel level
  | stopBuffer => (w.output c).stack = []
  | discardBuffer => ∀ b below, (w.output c).stack = b :: below →
    (w.bufferAt c b).isErasable = false
  | flush (.buffer b) => ¬ (w.output c).buffers.has b
  | clean .root | flushAll => True
  | clean (.buffer b) => (w.bufferAt c b).isErasable = false
  | closeLevel .root => (w.output c).isRootClosed
  | closeLevel (.buffer b) => (w.bufferAt c b).isClosed ∨ ¬ (w.output c).buffers.has b
  | _ => False

end Action

inductive Phase where
  | code
  | asked (o : Operation)
  | filtering (c : ContextId) (b : BufferId) (chunk : Bytes) (mode : OutputMode)
      (outcome : Except Signal Bytes)
  | settling (c : ContextId)

def Phase.IsApart (t : Listener) : Phase → Prop
  | filtering c b .. => c = t.context → b ≠ t.buffer
  | _ => True

namespace World

/-- Why a buffer is drained, in which mode and in which world, and whether it is removed by it. -/
inductive Prompts (t : Listener) (w : World τ) (c : ContextId) (b : BufferId) :
    Phase → OutputMode → World τ → List Removal → Prop
  | full (full : (w.bufferAt c b).IsFull) : Prompts t w c b (.settling c) {} w []
  | flushed : Prompts t w c b (.asked (.act c (.flush (.buffer b)))) { flush := true } w []
  | closed (isOpen : (w.bufferAt c b).isClosed = false) (apart : c = t.context → b ≠ t.buffer) :
      Prompts t w c b (.asked (.act c (.closeLevel (.buffer b)))) { final := true }
        (w.closeBuffer c b) []
  | stopped {below : List BufferId} (top : (w.output c).stack = b :: below)
      (isOpen : (w.bufferAt c b).isClosed = false) :
      Prompts t w c b (.asked (.act c .stopBuffer)) { final := true }
        ((w.resizeStack c below.length).closeBuffer c b) [.stopped]

inductive Empties (w : World τ) (c : ContextId) (b : BufferId) : Action → Option Nat → Prop
  | cleaned : Empties w c b (.clean (.buffer b)) none
  | discarded {below : List BufferId} (top : (w.output c).stack = b :: below) :
      Empties w c b .discardBuffer (some below.length)

/-- A run and all that it does to the output. The handler of the listener keeps calm: where it is
called in the context of the listener, it changes the state of the embedder and nothing else. -/
inductive Flows (t : Listener) : Phase → Recorded σ → List Flow → Recorded σ → Prop
  | done (w : Recorded σ) : Flows t .code w [] w
  | own {w v : Recorded σ} {flows : List Flow} (own : σ)
      (rest : Flows t .code (w.setOwn own) flows v) : Flows t .code w flows v
  | asked {w v u : Recorded σ} {flows more : List Flow} (o : Operation)
      (outcome : Except Signal o.Result) (inside : Flows t (.asked o) (w.begin o) flows v)
      (rest : Flows t .code (v.finish w.embedder.running o outcome) more u) :
      Flows t .code w (flows ++ more) u
  | idle {w : Recorded σ} {c : ContextId} {a : Action} (nothing : w.contexts.has c → a.IsIdle w c) :
      Flows t (.asked (.act c a)) w [] w
  | wrote {w v : Recorded σ} {c : ContextId} {a : Action} {place : Level} {text : Bytes}
      {more : List Flow} (written : a.written? w c = some (place, text))
      (there : (w.output c).HasLevel place)
      (rest : Flows t (.settling c) (w.receive c text place) more v) :
      Flows t (.asked (.act c a)) w (.took c place text none :: more) v
  | started {w : Recorded σ} {c : ContextId} (known : w.contexts.has c) (handler : Option Callback)
      (chunkSize : Int) (isErasable : Bool) :
      Flows t (.asked (.act c (.startBuffer handler chunkSize isErasable))) w
        [.started c (w.output c).buffers.next] (w.updateOutput c (·.push handler chunkSize isErasable))
  | unfiltered {w : Recorded σ} {c : ContextId} {b : BufferId} (chunk : Bytes) (mode : OutputMode)
      (handler : (w.bufferAt c b).handler = none) :
      Flows t (.filtering c b chunk mode (.ok chunk)) w [] w
  | filtered {w v : Recorded σ} {c : ContextId} {b : BufferId} {k : Callback} {flows : List Flow}
      (chunk : Bytes) (mode : OutputMode) (outcome : Except Signal Bytes)
      (handler : (w.bufferAt c b).handler = some k)
      (inside : Flows t .code (w.summon c b k chunk (w.modeAt c b mode)) flows v)
      (calm : c = t.context → k = t.handler →
        flows = [] ∧ ∃ own, v = (w.summon c b k chunk (w.modeAt c b mode)).setOwn own) :
      Flows t (.filtering c b chunk mode outcome) w
        (.called c b chunk (w.modeAt c b mode) outcome.toOption :: flows)
        (v.note (.answered (.filterOutput k c chunk (w.modeAt c b mode)) outcome))
  | drained {w u v x : Recorded σ} {c : ContextId} {b : BufferId} {phase : Phase}
      {mode : OutputMode} {ending : List Removal} {flows more : List Flow}
      (known : (w.output c).buffers.has b) (prompts : w.Prompts t c b phase mode u ending)
      (outcome : Except Signal Bytes)
      (filters : Flows t (.filtering c b (u.bufferAt c b).held mode outcome)
        (u.modifyBuffer c b Buffer.emptied) flows v)
      (rest : Flows t (.settling c) (v.passOn c (u.bufferAt c b).parent outcome) more x) :
      Flows t phase w (flows ++ (Flow.passing c b (u.bufferAt c b).parent outcome ++
        (ending.map fun how => .removed c b how
          ((v.passOn c (u.bufferAt c b).parent outcome).bufferAt c b).held) ++ more)) x
  | stoppedAgain {w : Recorded σ} {c : ContextId} {b : BufferId} {below : List BufferId}
      (top : (w.output c).stack = b :: below) (isClosed : (w.bufferAt c b).isClosed) :
      Flows t (.asked (.act c .stopBuffer)) w [.removed c b .stopped (w.bufferAt c b).held]
        (w.resizeStack c below.length)
  | cleared {w v : Recorded σ} {c : ContextId} {b : BufferId} {a : Action} {count : Option Nat}
      {flows : List Flow} (clears : w.Empties c b a count) (erasable : (w.bufferAt c b).isErasable)
      (outcome : Except Signal Bytes)
      (filters : Flows t (.filtering c b (w.bufferAt c b).held { clean := true } outcome) w flows v) :
      Flows t (.asked (.act c a)) w (flows ++ Flow.clearing v c b count outcome)
        (v.cleared c b count outcome)
  | rootFlushed (w : Recorded σ) (c : ContextId) :
      Flows t (.asked (.act c (.flush .root))) w [] (w.flushSink c)
  | rootClosed {w : Recorded σ} {c : ContextId} {a : Action}
      (closes : a = .closeLevel .root ∨ a = .flushAll) (isOpen : (w.output c).isRootClosed = false) :
      Flows t (.asked (.act c a)) w []
        ((w.updateOutput c fun o => { o with isRootClosed := true }).flushSink c)
  | stopped {w v u : Recorded σ} {c : ContextId} {flows more : List Flow}
      (first : Flows t (.asked (.act c .stopBuffer)) w flows v)
      (rest : Flows t (.asked (.act c .flushAll)) v more u) :
      Flows t (.asked (.act c .flushAll)) w (flows ++ more) u
  | settled (w : Recorded σ) (c : ContextId) : Flows t (.settling c) w [] w

section Effects

variable {w v u : World τ} {c e : ContextId} {b d : BufferId}

theorem has_of_buffer (there : (w.output c).buffers.has b) : w.contexts.has c := by
  by_cases known : w.contexts.has c
  · exact known
  · rw [output, context, Pool.get_of_not_has _ known] at there
    cases there

theorem bufferAt_unknown (unknown : ¬ (w.output c).buffers.has b) : w.bufferAt c b = default :=
  Pool.get_of_not_has _ unknown

theorem output_modifyBuffer (w : World τ) (c : ContextId) (d : BufferId) (f : Buffer → Buffer) :
    (w.modifyBuffer c d f).output c = (w.output c).modify d f := by
  by_cases known : w.contexts.has c
  · exact output_updateOutput known _
  · have nothing : ¬ (w.output c).buffers.has d := fun there => known (has_of_buffer there)
    rw [modifyBuffer, w.updateOutput_unknown c nothing, Output.modify,
      Pool.modify_eq_self _ _ fun there => absurd there nothing]

theorem bufferAt_modifyBuffer (there : (w.output c).buffers.has b) (f : Buffer → Buffer) :
    (w.modifyBuffer c b f).bufferAt c b = f (w.bufferAt c b) := by
  rw [bufferAt, output_modifyBuffer]
  exact Output.buffer_modify_self _ f there

theorem has_modifyBuffer (d : BufferId) (f : Buffer → Buffer) :
    ((w.modifyBuffer c d f).output c).buffers.has b = (w.output c).buffers.has b := by
  rw [output_modifyBuffer]
  exact Pool.has_modify ..

theorem stack_modifyBuffer (d : BufferId) (f : Buffer → Buffer) :
    ((w.modifyBuffer c d f).output c).stack = (w.output c).stack := by
  rw [output_modifyBuffer]
  rfl

theorem output_resizeStack (known : w.contexts.has c) (count : Nat) :
    (w.resizeStack c count).output c = (w.output c).resize count :=
  output_updateOutput known _

/-- A change that leaves a buffer as it is, and on the stack if it stands there. -/
structure LeavesBuffer (w v : World τ) (c : ContextId) (b : BufferId) : Prop where
  there : (v.output c).buffers.has b = (w.output c).buffers.has b
  own : v.bufferAt c b = w.bufferAt c b
  stays : b ∈ (w.output c).stack → b ∈ (v.output c).stack

namespace LeavesBuffer

theorem refl (w : World τ) (c : ContextId) (b : BufferId) : w.LeavesBuffer w c b := ⟨rfl, rfl, id⟩

theorem trans (first : w.LeavesBuffer v c b) (rest : v.LeavesBuffer u c b) : w.LeavesBuffer u c b :=
  ⟨rest.there.trans first.there, rest.own.trans first.own, rest.stays ∘ first.stays⟩

theorem updateOutput {f : Output → Output}
    (same : e = c → w.contexts.has e → (f (w.output c)).buffers.has b = (w.output c).buffers.has b ∧
      (f (w.output c)).buffer b = (w.output c).buffer b ∧
      (b ∈ (w.output c).stack → b ∈ (f (w.output c)).stack)) :
    w.LeavesBuffer (w.updateOutput e f) c b := by
  by_cases here : e = c ∧ w.contexts.has e
  · obtain ⟨rfl, known⟩ := here
    obtain ⟨there, own, stays⟩ := same rfl known
    have output := output_updateOutput known f
    exact ⟨by rwa [output], by rwa [World.bufferAt, output], by rwa [output]⟩
  · have output : (w.updateOutput e f).output c = w.output c := by
      rw [World.updateOutput, World.output, context_updateContext, if_neg here]
      rfl
    exact ⟨by rw [output], by rw [World.bufferAt, output]; rfl, by rw [output]; exact id⟩

theorem modifyBuffer (f : Buffer → Buffer) (apart : e = c → d ≠ b) :
    w.LeavesBuffer (w.modifyBuffer e d f) c b :=
  .updateOutput fun here _ => ⟨Pool.has_modify ..,
    Output.buffer_modify_of_ne _ f fun same => apart here same.symm, id⟩

theorem resizeStack {count : Nat}
    (stays : e = c → b ∈ (w.output c).stack → b ∈ ((w.output c).resize count).stack) :
    w.LeavesBuffer (w.resizeStack e count) c b :=
  .updateOutput fun here _ => ⟨rfl, rfl, stays here⟩

theorem popped {below : List BufferId} (top : (w.output e).stack = d :: below)
    (apart : e = c → d ≠ b) : w.LeavesBuffer (w.resizeStack e below.length) c b := by
  refine .resizeStack fun here onStack => ?_
  subst here
  rw [top] at onStack
  have inside := (List.mem_cons.1 onStack).resolve_left fun same => apart rfl same.symm
  simpa [Output.resize, top] using inside

theorem receive (text : Bytes) {place : Level} (apart : e = c → place ≠ .buffer b) :
    w.LeavesBuffer (w.receive e text place) c b := by
  cases place with
  | root => exact ⟨rfl, rfl, id⟩
  | buffer d => exact .modifyBuffer _ fun here same => apart here (congrArg Level.buffer same)

theorem passOn {place : Level} (apart : e = c → place ≠ .buffer b)
    (outcome : Except Signal Bytes) : w.LeavesBuffer (w.passOn e place outcome) c b := by
  unfold World.passOn
  split
  next text =>
    split
    next => exact .refl w c b
    next => exact .receive text apart
  next => exact .refl w c b

end LeavesBuffer

structure Develops (w v : World τ) : Prop where
  precedes : ∀ c, (w.output c).Precedes (v.output c)
  plumbed : w.IsPlumbed → v.IsPlumbed

namespace Develops

theorem of_same (same : v.contexts = w.contexts) : w.Develops v := by
  have outputs (c : ContextId) : v.output c = w.output c := by rw [output, context, same]; rfl
  exact ⟨fun c => outputs c ▸ .refl _, fun plumbed c => outputs c ▸ plumbed c⟩

theorem refl (w : World τ) : w.Develops w := .of_same rfl

theorem trans (first : w.Develops v) (rest : v.Develops u) : w.Develops u :=
  ⟨fun c => (first.precedes c).trans (rest.precedes c), rest.plumbed ∘ first.plumbed⟩

theorem updateOutput {f : Output → Output} (becomes : ∀ o : Output, o.Becomes (f o)) :
    w.Develops (w.updateOutput c f) := by
  refine ⟨fun e => ?_, fun plumbed => plumbed.updateContext ((becomes _).plumbed (plumbed c))⟩
  rw [output, output, World.updateOutput, context_updateContext]
  split
  next here =>
    obtain ⟨rfl, -⟩ := here
    exact .of_becomes (becomes _)
  next => exact .refl _

theorem modifyBuffer {f : Buffer → Buffer} (closed : ∀ x, x.isClosed → (f x).isClosed)
    (pristine : ∀ x, (f x).pristine = x.pristine) : w.Develops (w.modifyBuffer c b f) :=
  .updateOutput fun _ => .used b f closed pristine

theorem emptied : w.Develops (w.modifyBuffer c b Buffer.emptied) :=
  .modifyBuffer (fun _ => id) fun _ => rfl

theorem closeBuffer : w.Develops (w.closeBuffer c b) :=
  .modifyBuffer (fun _ _ => rfl) fun _ => rfl

theorem resizeStack (count : Nat) : w.Develops (w.resizeStack c count) :=
  .updateOutput fun _ => .resized count

theorem receive (text : Bytes) (place : Level) : w.Develops (w.receive c text place) := by
  cases place with
  | root => exact .of_same rfl
  | buffer d => exact .modifyBuffer (fun _ => id) fun _ => rfl

theorem passOn (place : Level) (outcome : Except Signal Bytes) :
    w.Develops (w.passOn c place outcome) := by
  unfold World.passOn
  split
  next =>
    split
    next => exact .refl w
    next => exact .receive _ place
  next => exact .refl w

theorem lower (count : Option Nat) : w.Develops (w.lower c b count) := by
  cases count with
  | none => exact .refl w
  | some count => exact closeBuffer.trans (resizeStack count)

theorem cleared (count : Option Nat) (outcome : Except Signal Bytes) :
    w.Develops (w.cleared c b count outcome) := by
  cases outcome with
  | ok => exact emptied.trans (lower count)
  | error => exact .refl w

theorem bufferAt (develops : w.Develops v) (there : (w.output c).buffers.has b) :
    (v.output c).buffers.has b ∧ (v.bufferAt c b).pristine = (w.bufferAt c b).pristine :=
  ⟨(develops.precedes c).has there, (develops.precedes c).pristine b there⟩

end Develops

theorem Develops.summon {w : Recorded σ} (k : Callback) (chunk : Bytes) (mode : OutputMode) :
    w.Develops (w.summon c b k chunk mode) :=
  .trans (.modifyBuffer (f := fun x => { x with isStarted := true }) (fun _ => id) fun _ => rfl)
    (.of_same rfl)

theorem Prompts.develops {t : Listener} {phase : Phase} {mode : OutputMode} {ending : List Removal}
    (prompts : w.Prompts t c b phase mode u ending) : w.Develops u := by
  cases prompts with
  | full | flushed => exact .refl w
  | closed => exact .closeBuffer
  | stopped => exact (Develops.resizeStack _).trans .closeBuffer

theorem Prompts.spares {t : Listener} {phase : Phase} {mode : OutputMode} {ending : List Removal}
    (prompts : w.Prompts t e d phase mode u ending) (apart : e = c → d ≠ b) : w.LeavesBuffer u c b := by
  cases prompts with
  | full | flushed => exact .refl w c b
  | closed => exact .modifyBuffer _ apart
  | stopped top => exact (LeavesBuffer.popped top apart).trans (.modifyBuffer _ apart)

theorem Prompts.plain {t : Listener} {phase : Phase} {mode : OutputMode} {ending : List Removal}
    (prompts : w.Prompts t c b phase mode u ending) : mode.clean = false := by
  cases prompts <;> rfl

theorem Prompts.used {t : Listener} {phase : Phase} {mode : OutputMode} {ending : List Removal}
    (prompts : w.Prompts t c b phase mode u ending) (there : (w.output c).buffers.has b) :
    (u.bufferAt c b).held = (w.bufferAt c b).held ∧
      (u.bufferAt c b).isStarted = (w.bufferAt c b).isStarted := by
  cases prompts with
  | full | flushed => exact ⟨rfl, rfl⟩
  | closed => simp [closeBuffer, bufferAt_modifyBuffer there]
  | @stopped below top =>
    have output := output_resizeStack (has_of_buffer there) below.length
    have there' : ((w.resizeStack c below.length).output c).buffers.has b := by rwa [output]
    have own : (w.resizeStack c below.length).bufferAt c b = w.bufferAt c b := by
      rw [bufferAt, output]
      rfl
    simp [closeBuffer, bufferAt_modifyBuffer there', own]

/-- The listener hears the last of a buffer that is stopped, and of no other. -/
theorem Prompts.ends {t : Listener} {phase : Phase} {mode : OutputMode} {ending : List Removal}
    (prompts : w.Prompts t t.context t.buffer phase mode u ending) :
    u = w ∧ mode.final = false ∧ ending = [] ∨ mode.final = true ∧ ending = [.stopped] := by
  cases prompts with
  | full | flushed => exact .inl ⟨rfl, rfl, rfl⟩
  | closed _ apart => exact absurd rfl (apart rfl)
  | stopped => exact .inr ⟨rfl, rfl⟩

theorem IsPlumbed.parent_ne (plumbed : w.IsPlumbed) (c : ContextId) (b : BufferId) :
    (w.bufferAt c b).parent ≠ .buffer b := by
  intro same
  rw [Buffer.parent] at same
  cases way : (w.bufferAt c b).below with
  | nil =>
    rw [way] at same
    cases same
  | cons d rest =>
    rw [way] at same
    cases same
    exact (plumbed c).apart b (by rw [← bufferAt, way]; exact List.mem_cons_self)

theorem IsPlumbed.hasLevel_parent (plumbed : w.IsPlumbed) (c : ContextId) (b : BufferId) :
    (w.output c).HasLevel (w.bufferAt c b).parent := by
  rw [Buffer.parent]
  cases way : (w.bufferAt c b).below with
  | nil => trivial
  | cons d rest => exact ((plumbed c).ways b d rest way).1

def IsTuned (t : Listener) (w : World τ) : Prop :=
  (w.output t.context).buffers.has t.buffer →
    (w.bufferAt t.context t.buffer).handler = some t.handler

theorem Develops.tuned {t : Listener} (develops : w.Develops v) (tuned : v.IsTuned t) :
    w.IsTuned t := by
  intro there
  obtain ⟨there', same⟩ := develops.bufferAt there
  exact (Buffer.handler_of_pristine same).symm.trans (tuned there')

/-- What has been heard of a buffer, from its start on. -/
structure Hears (w : World τ) (t : Listener) (taps : List Tap) : Prop where
  started : (w.output t.context).buffers.has t.buffer → ∃ rest, taps = .started :: rest ∧
    Tap.Heeds rest (w.bufferAt t.context t.buffer) (t.buffer ∈ (w.output t.context).stack)
  unknown : ¬ (w.output t.context).buffers.has t.buffer → taps = []

namespace Hears

variable {t : Listener} {taps more : List Tap}

theorem spares (hears : w.Hears t taps) (spares : w.LeavesBuffer v t.context t.buffer) :
    v.Hears t taps := by
  constructor
  · rw [spares.there, spares.own]
    intro there
    obtain ⟨rest, same, heeds⟩ := hears.started there
    refine ⟨rest, same, fun all => ?_, heeds.ended⟩
    obtain ⟨protocol, isOpen, started, used⟩ := heeds.kept all
    exact ⟨protocol, isOpen, started, spares.stays used⟩
  · rw [spares.there]
    exact hears.unknown

theorem goesOn (hears : w.Hears t taps) (there : (w.output t.context).buffers.has t.buffer)
    (there' : (v.output t.context).buffers.has t.buffer)
    (step : ∀ rest,
      Tap.Heeds rest (w.bufferAt t.context t.buffer) (t.buffer ∈ (w.output t.context).stack) →
      Tap.Heeds (rest ++ more) (v.bufferAt t.context t.buffer)
        (t.buffer ∈ (v.output t.context).stack)) : v.Hears t (taps ++ more) := by
  obtain ⟨rest, rfl, heeds⟩ := hears.started there
  exact ⟨fun _ => ⟨rest ++ more, rfl, step rest heeds⟩, fun none => absurd there' none⟩

end Hears

end Effects

section Runs

variable {t : Listener} {w v u : Recorded σ} {c e : ContextId} {b d : BufferId} {phase : Phase}
  {mode : OutputMode} {taps : List Tap} {flows : List Flow}

namespace Hears

theorem push (hears : w.Hears t taps) (known : w.contexts.has c) (handler : Option Callback)
    (chunkSize : Int) (isErasable : Bool) :
    (w.updateOutput c (·.push handler chunkSize isErasable)).Hears t
      (taps ++ Flow.taps t.context t.buffer [.started c (w.output c).buffers.next]) := by
  have output := output_updateOutput known (·.push handler chunkSize isErasable)
  by_cases own : c = t.context ∧ (w.output c).buffers.next = t.buffer
  · obtain ⟨rfl, next⟩ := own
    have new : ¬ (w.output t.context).buffers.has t.buffer :=
      fun there => Pool.ne_next_of_has _ there next.symm
    have tapped : Flow.taps t.context t.buffer
        [.started t.context (w.output t.context).buffers.next] = [.started] := by
      simp [Flow.taps, Flow.tap?, next]
    rw [hears.unknown new, tapped, List.nil_append]
    have there : ((w.output t.context).push handler chunkSize isErasable).buffers.has t.buffer :=
      next ▸ Pool.has_next_add (w.output t.context).buffers _
    have fresh : ((w.output t.context).push handler chunkSize isErasable).buffer t.buffer = _ :=
      next ▸ Pool.get_add_next (w.output t.context).buffers _
    refine ⟨fun _ => ⟨[], rfl, fun _ => ?_, fun before _ _ _ split => ?_⟩, fun none => ?_⟩
    · rw [bufferAt, output, fresh]
      exact ⟨.start_empty, rfl, by simp [Tap.modes], next ▸ List.mem_cons_self⟩
    · cases before <;> cases split
    · exact absurd (output ▸ there) none
  · have tapped : Flow.taps t.context t.buffer [.started c (w.output c).buffers.next] = [] := by
      simp [Flow.taps, Flow.tap?, own]
    rw [tapped, List.append_nil]
    refine hears.spares (.updateOutput fun here _ => ?_)
    subst here
    have other : t.buffer ≠ (w.output t.context).buffers.next := fun same => own ⟨rfl, same.symm⟩
    refine ⟨?_, (Pool.get_add ..).trans (if_neg other), List.mem_cons_of_mem _⟩
    apply Bool.eq_iff_iff.2
    rw [Output.push, Pool.has_add_iff]
    simp [other]

theorem receive (hears : w.Hears t taps) {place : Level} (there : (w.output c).HasLevel place)
    (text : Bytes) {source : Option BufferId} (apart : c = t.context → source ≠ some t.buffer) :
    (w.receive c text place).Hears t
      (taps ++ Flow.taps t.context t.buffer [.took c place text source]) := by
  by_cases own : c = t.context ∧ place = .buffer t.buffer
  · obtain ⟨rfl, rfl⟩ := own
    have tapped : Flow.taps t.context t.buffer [.took t.context (.buffer t.buffer) text source] =
      [.took text] := by simp [Flow.taps, Flow.tap?]
    rw [tapped]
    refine hears.goesOn there ((has_modifyBuffer ..).trans there) fun rest heeds => ?_
    rw [World.receive, bufferAt_modifyBuffer there, stack_modifyBuffer]
    refine heeds.append (by simp [Tap.isRemoval]) fun all => ?_
    obtain ⟨protocol, isOpen, started, used⟩ := heeds.kept all
    exact ⟨protocol.took text, isOpen, by simpa [Tap.modes] using started, used⟩
  · have tapped : Flow.taps t.context t.buffer [.took c place text source] = [] := by
      have other : ¬ (c = t.context ∧ source = some t.buffer) := fun both => apart both.1 both.2
      simp [Flow.taps, Flow.tap?, own, other]
    rw [tapped, List.append_nil]
    exact hears.spares (.receive text fun here same => own ⟨here, same⟩)

theorem passOn (hears : w.Hears t taps) {place : Level} (there : (w.output c).HasLevel place)
    (apart : c = t.context → b ≠ t.buffer) (outcome : Except Signal Bytes) :
    (w.passOn c place outcome).Hears t
      (taps ++ Flow.taps t.context t.buffer (Flow.passing c b place outcome)) := by
  unfold World.passOn Flow.passing
  cases outcome with
  | error signal => rwa [Flow.taps_nil, List.append_nil]
  | ok text =>
    dsimp only
    split
    next => rwa [Flow.taps_nil, List.append_nil]
    next =>
      exact hears.receive there text fun here same => apart here (Option.some.inj same)

/-- A buffer that has been closed has been removed before. -/
theorem popAgain (hears : w.Hears t taps) (plumbed : w.IsPlumbed) {below : List BufferId}
    (top : (w.output c).stack = b :: below) (isClosed : (w.bufferAt c b).isClosed) :
    (w.resizeStack c below.length).Hears t
      (taps ++ Flow.taps t.context t.buffer [.removed c b .stopped (w.bufferAt c b).held]) := by
  by_cases own : c = t.context ∧ b = t.buffer
  · obtain ⟨rfl, rfl⟩ := own
    have there := (plumbed t.context).known t.buffer (by simp [top])
    have resized : w.Develops (w.resizeStack t.context below.length) := .resizeStack _
    have removed : Flow.taps t.context t.buffer [.removed t.context t.buffer .stopped
        (w.bufferAt t.context t.buffer).held] =
        [] ++ [.removed .stopped (w.bufferAt t.context t.buffer).held] := by
      simp [Flow.taps, Flow.tap?]
    rw [removed]
    refine hears.goesOn there (resized.bufferAt there).1 fun rest heeds => ?_
    refine heeds.remove (List.forall_mem_nil (Tap.isRemoval · = false)) fun all => ?_
    obtain ⟨-, isOpen, -⟩ := heeds.kept all
    rw [isClosed] at isOpen
    cases isOpen
  · have other : c = t.context → b ≠ t.buffer := fun here same => own ⟨here, same⟩
    have silent : Flow.taps t.context t.buffer [.removed c b .stopped (w.bufferAt c b).held] = [] :=
      Flow.taps_ending other [.stopped]
    rw [silent, List.append_nil]
    exact hears.spares (.popped top other)

theorem lower (hears : w.Hears t taps) (plumbed : w.IsPlumbed) (count : Option Nat)
    (own : c = t.context → b = t.buffer → ∀ n ∈ count, b ∈ w.leaving c n) :
    (w.lower c b count).Hears t (taps ++ Flow.taps t.context t.buffer (w.removals c b count)) := by
  cases count with
  | none =>
    rw [removals, Flow.taps_nil, List.append_nil]
    exact hears
  | some n =>
    by_cases leaves : c = t.context ∧ t.buffer ∈ w.leaving c n
    · obtain ⟨rfl, leaves⟩ := leaves
      have there := (plumbed t.context).known t.buffer
        (List.mem_append_left _ (List.mem_of_mem_take leaves))
      have develops : w.Develops (w.lower t.context b (some n)) := .lower _
      obtain ⟨rest, tapped⟩ := Flow.taps_removed t.context leaves
        (fun d => if d = b then .discarded else .dropped) fun d => (w.bufferAt t.context d).held
      rw [removals, tapped]
      refine hears.goesOn there (develops.bufferAt there).1 fun before heeds => ?_
      refine heeds.remove (List.forall_mem_nil (Tap.isRemoval · = false)) fun all => ?_
      rw [List.append_nil]
      exact (heeds.kept all).1.mono (by split <;> simp)
    · have quiet : Flow.taps t.context t.buffer (w.removals c b (some n)) = [] :=
        Flow.taps_removed_of_not_mem fun here inside => leaves ⟨here, inside⟩
      rw [quiet, List.append_nil]
      have other : c = t.context → b ≠ t.buffer := fun here same =>
        leaves ⟨here, same ▸ own here same n rfl⟩
      refine (hears.spares (.modifyBuffer _ other)).spares (.resizeStack fun here onStack => ?_)
      subst here
      rw [stack_modifyBuffer] at onStack
      have stays : t.buffer ∈ (w.output t.context).stack.drop
          ((w.output t.context).stack.length - n) := by
        rw [← List.take_append_drop ((w.output t.context).stack.length - n)
          (w.output t.context).stack] at onStack
        exact (List.mem_append.1 onStack).resolve_left fun inside => leaves ⟨rfl, inside⟩
      rw [Output.resize, stack_modifyBuffer]
      exact List.mem_append_right _ stays

end Hears

namespace Flows

theorem develops (run : w.Flows t phase flows v) : w.Develops v := by
  induction run with
  | done | idle | unfiltered | settled => exact .refl _
  | @own w v _ own rest ih =>
    have step : w.Develops (w.setOwn own) := .of_same rfl
    exact step.trans ih
  | @asked w v u _ _ o outcome inside rest ih ih' =>
    have begun : w.Develops (w.begin o) := .of_same rfl
    have ended : v.Develops (v.finish w.embedder.running o outcome) := .of_same rfl
    exact begun.trans (ih.trans (ended.trans ih'))
  | wrote written there rest ih => exact (Develops.receive ..).trans ih
  | started known handler chunkSize isErasable =>
    exact .updateOutput fun _ => .started handler chunkSize isErasable
  | filtered chunk mode outcome handler inside calm ih =>
    exact (Develops.summon ..).trans (ih.trans (.of_same rfl))
  | drained known prompts outcome filters rest ih ih' =>
    exact prompts.develops.trans (.trans .emptied (ih.trans (.trans (.passOn ..) ih')))
  | stoppedAgain => exact .resizeStack _
  | cleared clears erasable outcome filters ih => exact ih.trans (.cleared ..)
  | rootFlushed => exact .of_same rfl
  | rootClosed => exact (Develops.updateOutput fun _ => .rootClosed).trans (.of_same rfl)
  | stopped first rest ih ih' => exact ih.trans ih'

theorem source (run : w.Flows t phase flows v) {place : Level} {text : Bytes}
    (took : .took c place text (some b) ∈ flows) :
    (v.output c).buffers.has b ∧ place = (v.bufferAt c b).parent := by
  -- what has been taken before is told by a buffer that is the same afterwards
  have later {v u : Recorded σ} (develops : v.Develops u)
      (told : (v.output c).buffers.has b ∧ place = (v.bufferAt c b).parent) :
      (u.output c).buffers.has b ∧ place = (u.bufferAt c b).parent := by
    obtain ⟨there, same⟩ := develops.bufferAt told.1
    exact ⟨there, told.2.trans (Buffer.parent_of_pristine same).symm⟩
  induction run with
  | done | idle | started | unfiltered | stoppedAgain | rootFlushed | rootClosed | settled =>
    simp at took
  | own own rest ih => exact ih took
  | @asked w v u _ _ o outcome inside rest ih ih' =>
    have ended : v.Develops (v.finish w.embedder.running o outcome) := .of_same rfl
    rcases List.mem_append.1 took with early | late
    · exact later (ended.trans rest.develops) (ih early)
    · exact ih' late
  | wrote written there rest ih => exact ih ((List.mem_cons.1 took).resolve_left nofun)
  | filtered chunk mode outcome handler inside calm ih =>
    exact later (.of_same rfl) (ih ((List.mem_cons.1 took).resolve_left nofun))
  | @drained w u v x e d phase mode ending flows more known prompts outcome filters rest ih ih' =>
    have onward : v.Develops x := (Develops.passOn ..).trans rest.develops
    simp only [List.mem_append, List.mem_map] at took
    rcases took with inside | (passed | ⟨how, -, removed⟩) | late
    · exact later onward (ih inside)
    · obtain ⟨rfl, rfl, rfl⟩ := Flow.mem_passing passed
      have told := (prompts.develops.bufferAt known).1
      exact later (Develops.emptied.trans (filters.develops.trans onward)) ⟨told, rfl⟩
    · cases removed
    · exact ih' late
  | cleared clears erasable outcome filters ih =>
    rcases List.mem_append.1 took with inside | removed
    · exact later (.cleared ..) (ih inside)
    · exact absurd removed Flow.not_mem_clearing
  | stopped first rest ih ih' =>
    rcases List.mem_append.1 took with early | late
    · exact later rest.develops (ih early)
    · exact ih' late

theorem filtered_own {chunk : Bytes} {outcome : Except Signal Bytes}
    (run : w.Flows t (.filtering t.context t.buffer chunk mode outcome) flows v)
    (there : (w.output t.context).buffers.has t.buffer)
    (handler : (w.bufferAt t.context t.buffer).handler = some t.handler) :
    Flow.taps t.context t.buffer flows =
        [.called chunk (w.modeAt t.context t.buffer mode) outcome.toOption] ∧
      v.bufferAt t.context t.buffer = { w.bufferAt t.context t.buffer with isStarted := true } ∧
      (v.output t.context).stack = (w.output t.context).stack := by
  cases run with
  | unfiltered _ _ none =>
    rw [handler] at none
    cases none
  | drained _ prompts => cases prompts
  | filtered _ _ _ handler' inside calm =>
    obtain rfl := Option.some.inj (handler.symm.trans handler')
    obtain ⟨rfl, own, rfl⟩ := calm rfl rfl
    refine ⟨?_, ?_, ?_⟩
    · simp [Flow.taps, Flow.tap?]
    · exact bufferAt_modifyBuffer there fun x => { x with isStarted := true }
    · exact stack_modifyBuffer t.buffer fun x => { x with isStarted := true }

/-- A buffer gives what it holds to its handler, and the answer to the one below. -/
theorem drained_own {x : Recorded σ} {outcome : Except Signal Bytes} {ending : List Removal}
    (filters : (u.modifyBuffer t.context t.buffer Buffer.emptied).Flows t
      (.filtering t.context t.buffer (u.bufferAt t.context t.buffer).held mode outcome) flows v)
    (passed : v.passOn t.context (u.bufferAt t.context t.buffer).parent outcome = x)
    (prompts : w.Prompts t t.context t.buffer phase mode u ending)
    (there : (w.output t.context).buffers.has t.buffer) (plumbed : w.IsPlumbed)
    (tuned : w.IsTuned t) (hears : w.Hears t taps) :
    x.Hears t (taps ++ Flow.taps t.context t.buffer (flows ++
      (Flow.passing t.context t.buffer (u.bufferAt t.context t.buffer).parent outcome ++
        ending.map fun how =>
          .removed t.context t.buffer how (x.bufferAt t.context t.buffer).held))) := by
  obtain ⟨there', same⟩ := prompts.develops.bufferAt there
  obtain ⟨held, isStarted⟩ := prompts.used there
  have apart := (prompts.develops.plumbed plumbed).parent_ne t.context t.buffer
  have emptied := bufferAt_modifyBuffer there' Buffer.emptied
  obtain ⟨called, own, stack⟩ := filters.filtered_own ((has_modifyBuffer ..).trans there')
    (emptied ▸ (Buffer.handler_of_pristine same).trans (tuned there))
  have spares : v.LeavesBuffer x t.context t.buffer := passed ▸ .passOn (fun _ => apart) outcome
  have empty : (x.bufferAt t.context t.buffer).held = [] := by
    rw [spares.own, own, emptied]
    rfl
  have arrived : (x.output t.context).buffers.has t.buffer := by
    rw [spares.there]
    exact (filters.develops.bufferAt ((has_modifyBuffer ..).trans there')).1
  have mode' : (u.modifyBuffer t.context t.buffer Buffer.emptied).modeAt t.context t.buffer mode =
      { mode with start := !(w.bufferAt t.context t.buffer).isStarted } := by
    rw [modeAt, emptied, ← isStarted]
    rfl
  rw [Flow.taps_append, called, List.singleton_append, Flow.taps_append, ← List.cons_append,
    Flow.taps_passing apart, empty, held, mode']
  have drains {rest : List Tap} {isUsed : Prop}
      (heeds : Tap.Heeds rest (w.bufferAt t.context t.buffer) isUsed)
      (all : ∀ t ∈ rest, t.isRemoval = false) :
      Tap.Protocol (rest ++ Tap.draining (w.bufferAt t.context t.buffer).held
        { mode with start := !(w.bufferAt t.context t.buffer).isStarted } outcome) []
        (mode.final = true) := by
    let mode' := { mode with start := !(w.bufferAt t.context t.buffer).isStarted }
    have starts : mode'.start = !(w.bufferAt t.context t.buffer).isStarted := rfl
    obtain ⟨protocol, -, started, -⟩ := heeds.kept all
    exact protocol.drained starts started prompts.plain outcome
  refine hears.goesOn there arrived fun rest heeds => ?_
  obtain ⟨rfl, goesOn, rfl⟩ | ⟨ends, rfl⟩ := prompts.ends
  · rw [List.map_nil, Flow.taps_nil, List.append_nil, spares.own, own, emptied]
    refine heeds.append (Tap.isRemoval_draining _ _) fun all => ?_
    obtain ⟨-, isOpen, -, used⟩ := heeds.kept all
    refine ⟨(drains heeds all).mono (by simp [goesOn]), isOpen, by simp [Tap.modes_draining], ?_⟩
    exact spares.stays (by rw [stack, stack_modifyBuffer]; exact used)
  · have removed : Flow.taps t.context t.buffer
        [.removed t.context t.buffer .stopped []] = [.removed .stopped []] := by
      simp [Flow.taps, Flow.tap?]
    rw [List.map_singleton, removed]
    refine heeds.remove (Tap.isRemoval_draining _ _) fun all => ?_
    exact (drains heeds all).mono (by simp [ends])

/-- A buffer that is cleaned is empty afterwards, unless its handler unwinds. -/
theorem cleared_own {a : Action} {count : Option Nat} {outcome : Except Signal Bytes}
    (filters : w.Flows t (.filtering t.context t.buffer (w.bufferAt t.context t.buffer).held
      { clean := true } outcome) flows v)
    (clears : w.Empties t.context t.buffer a count)
    (there : (w.output t.context).buffers.has t.buffer) (plumbed : w.IsPlumbed)
    (tuned : w.IsTuned t) (hears : w.Hears t taps) :
    (v.cleared t.context t.buffer count outcome).Hears t
      (taps ++ Flow.taps t.context t.buffer
        (flows ++ Flow.clearing v t.context t.buffer count outcome)) := by
  obtain ⟨called, own, stack⟩ := filters.filtered_own there (tuned there)
  have there' := (filters.develops.bufferAt there).1
  rw [Flow.taps_append, called, ← List.append_assoc]
  have heard {x : Recorded σ} (arrived : (x.output t.context).buffers.has t.buffer)
      (used : (x.output t.context).stack = (w.output t.context).stack)
      (own : x.bufferAt t.context t.buffer = { w.bufferAt t.context t.buffer with
        held := if outcome.toOption.isSome then [] else (w.bufferAt t.context t.buffer).held
        isStarted := true }) :
      x.Hears t (taps ++ [.called (w.bufferAt t.context t.buffer).held
        (w.modeAt t.context t.buffer { clean := true }) outcome.toOption]) := by
    refine hears.goesOn there arrived fun rest heeds => ?_
    rw [own, used]
    refine heeds.append (by simp [Tap.isRemoval]) fun all => ?_
    obtain ⟨protocol, isOpen, started, onStack⟩ := heeds.kept all
    have starts : (w.modeAt t.context t.buffer { clean := true }).start =
      !(w.bufferAt t.context t.buffer).isStarted := rfl
    have cleaned := protocol.cleaned starts started rfl outcome.toOption
    exact ⟨cleaned.mono (by simp [modeAt]), isOpen, by simp [Tap.modes], onStack⟩
  cases outcome with
  | error signal =>
    rw [Flow.clearing, Flow.taps_nil, List.append_nil]
    exact heard there' stack own
  | ok answer =>
    have emptied := bufferAt_modifyBuffer there' Buffer.emptied
    have stack' := (stack_modifyBuffer (w := v) t.buffer Buffer.emptied).trans stack
    have clean := heard (x := v.modifyBuffer t.context t.buffer Buffer.emptied)
      ((has_modifyBuffer ..).trans there') stack' (by rw [emptied, own]; rfl)
    refine clean.lower ((filters.develops.trans .emptied).plumbed plumbed) count ?_
    rintro - - n counted
    cases clears with
    | cleaned => cases counted
    | discarded top =>
      cases counted
      rw [leaving, stack', top]
      simp

/-- What other buffers do is no more to the listener than what they pass on to its own. -/
theorem drained_other {x : Recorded σ} {outcome : Except Signal Bytes} {ending : List Removal}
    (filters : (u.modifyBuffer c b Buffer.emptied).Flows t
      (.filtering c b (u.bufferAt c b).held mode outcome) flows v)
    (passed : v.passOn c (u.bufferAt c b).parent outcome = x)
    (prompts : w.Prompts t c b phase mode u ending) (known : (w.output c).buffers.has b)
    (plumbed : w.IsPlumbed) (other : c = t.context → b ≠ t.buffer)
    (called : v.Hears t (taps ++ Flow.taps t.context t.buffer flows)) :
    x.Hears t (taps ++ Flow.taps t.context t.buffer (flows ++
      (Flow.passing c b (u.bufferAt c b).parent outcome ++
        ending.map fun how => .removed c b how (x.bufferAt c b).held))) := by
  have develops := Develops.emptied.trans filters.develops
  have there := ((prompts.develops.trans develops).plumbed plumbed).hasLevel_parent c b
  rw [Buffer.parent_of_pristine (develops.bufferAt (prompts.develops.bufferAt known).1).2] at there
  subst passed
  have passed := called.passOn there other outcome
  rwa [List.append_assoc, ← Flow.taps_append, ← List.append_nil (Flow.taps _ _ _),
    ← Flow.taps_ending other ending, ← Flow.taps_append, List.append_assoc] at passed

theorem cleared_other {count : Option Nat} {outcome : Except Signal Bytes} (plumbed : v.IsPlumbed)
    (other : c = t.context → b ≠ t.buffer)
    (called : v.Hears t (taps ++ Flow.taps t.context t.buffer flows)) :
    (v.cleared c b count outcome).Hears t
      (taps ++ Flow.taps t.context t.buffer (flows ++ Flow.clearing v c b count outcome)) := by
  rw [Flow.taps_append, ← List.append_assoc]
  cases outcome with
  | error signal =>
    rw [Flow.clearing, Flow.taps_nil, List.append_nil]
    exact called
  | ok answer =>
    exact (called.spares (.modifyBuffer Buffer.emptied other)).lower
      (Develops.emptied.plumbed plumbed) count fun here same => absurd same (other here)

theorem heeds (run : w.Flows t phase flows v) (apart : phase.IsApart t) (plumbed : w.IsPlumbed)
    (tuned : v.IsTuned t) (hears : w.Hears t taps) :
    v.Hears t (taps ++ Flow.taps t.context t.buffer flows) := by
  induction run generalizing taps with
  | done | idle | unfiltered | settled =>
    rw [Flow.taps_nil, List.append_nil]
    exact hears
  | own own rest ih => exact ih trivial plumbed tuned ⟨hears.started, hears.unknown⟩
  | @asked w v u _ _ o outcome inside rest ih ih' =>
    have ended : v.Develops (v.finish w.embedder.running o outcome) := .of_same rfl
    have during := ih trivial plumbed ((ended.trans rest.develops).tuned tuned)
      ⟨hears.started, hears.unknown⟩
    rw [Flow.taps_append, ← List.append_assoc]
    exact ih' trivial ((inside.develops.trans ended).plumbed plumbed) tuned
      ⟨during.started, during.unknown⟩
  | @wrote w v c a place text more written there rest ih =>
    have took : (w.receive c text place).Hears t
        (taps ++ Flow.taps t.context t.buffer [.took c place text none]) :=
      hears.receive there text fun _ => nofun
    have after := ih trivial ((Develops.receive text place).plumbed plumbed) tuned took
    rwa [List.append_assoc, ← Flow.taps_append] at after
  | started known handler chunkSize isErasable =>
    exact hears.push known handler chunkSize isErasable
  | @filtered w v c b k flows chunk mode outcome handler inside calm ih =>
    have silent : Flow.tap? t.context t.buffer
        (.called c b chunk (w.modeAt c b mode) outcome.toOption) = none :=
      if_neg fun both => apart both.1 both.2
    have summoned := hears.spares (.modifyBuffer (fun x => { x with isStarted := true }) apart)
    have during := ih trivial ((Develops.summon ..).plumbed plumbed) tuned
      ⟨summoned.started, summoned.unknown⟩
    rw [Flow.taps, List.filterMap_cons_none silent]
    exact ⟨during.started, during.unknown⟩
  | @drained w u v x c b phase mode ending flows more known prompts outcome filters rest ih ih' =>
    have given := prompts.develops.trans (Develops.emptied.trans filters.develops)
    have passes : v.Develops (v.passOn c (u.bufferAt c b).parent outcome) := .passOn ..
    have onward := passes.trans rest.develops
    have passed : (v.passOn c (u.bufferAt c b).parent outcome).Hears t
        (taps ++ Flow.taps t.context t.buffer (flows ++
          (Flow.passing c b (u.bufferAt c b).parent outcome ++ ending.map fun how =>
            .removed c b how ((v.passOn c (u.bufferAt c b).parent outcome).bufferAt c b).held))) := by
      by_cases own : c = t.context ∧ b = t.buffer
      · obtain ⟨rfl, rfl⟩ := own
        exact filters.drained_own rfl prompts known plumbed ((given.trans onward).tuned tuned) hears
      · have other : c = t.context → b ≠ t.buffer := fun here same => own ⟨here, same⟩
        have emptied := (hears.spares (prompts.spares other)).spares
          (.modifyBuffer Buffer.emptied other)
        have called := ih other ((prompts.develops.trans .emptied).plumbed plumbed)
          (onward.tuned tuned) emptied
        exact filters.drained_other rfl prompts known plumbed other called
    have after := ih' trivial ((given.trans passes).plumbed plumbed) tuned passed
    rwa [List.append_assoc, ← Flow.taps_append, List.append_assoc] at after
  | stoppedAgain top isClosed => exact hears.popAgain plumbed top isClosed
  | @cleared w v c b a count flows clears erasable outcome filters ih =>
    have develops : v.Develops (v.cleared c b count outcome) := .cleared ..
    by_cases own : c = t.context ∧ b = t.buffer
    · obtain ⟨rfl, rfl⟩ := own
      have there : (w.output t.context).buffers.has t.buffer := by
        refine Decidable.byContradiction fun unknown => ?_
        rw [bufferAt_unknown unknown] at erasable
        cases erasable
      exact filters.cleared_own clears there plumbed
        ((filters.develops.trans develops).tuned tuned) hears
    · have other : c = t.context → b ≠ t.buffer := fun here same => own ⟨here, same⟩
      have called := ih other plumbed (develops.tuned tuned) hears
      exact cleared_other (filters.develops.plumbed plumbed) other called
  | rootFlushed =>
    rw [Flow.taps_nil, List.append_nil]
    exact ⟨hears.started, hears.unknown⟩
  | @rootClosed w c a closes isOpen =>
    rw [Flow.taps_nil, List.append_nil]
    have marked : (w.updateOutput c fun o => { o with isRootClosed := true }).Hears t taps :=
      hears.spares (.updateOutput fun _ _ => ⟨rfl, rfl, id⟩)
    exact ⟨marked.started, marked.unknown⟩
  | stopped first rest ih ih' =>
    rw [Flow.taps_append, ← List.append_assoc]
    exact ih' trivial (first.develops.plumbed plumbed) tuned
      (ih trivial plumbed (rest.develops.tuned tuned) hears)

end Flows

end Runs

end World

end ScriptHost
