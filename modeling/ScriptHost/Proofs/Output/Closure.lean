import ScriptHost.Output.Stack
import ScriptHost.Proofs.Embedder.Course

set_option autoImplicit false

namespace ScriptHost

variable {τ : Type}

structure Run.IsClosed (c : ContextId) (P : (α : Type) → Run τ α → Prop) : Prop where
  pure {α : Type} (a : α) : P α (Pure.pure a)
  bind {α β : Type} {m : Run τ α} {f : α → Run τ β} (first : P α m) (rest : ∀ a, P β (f a)) :
    P β (m >>= f)
  context : P Context (Run.context c)
  modifyStack {f : Output → Output} (keeps : ∀ o, (f o).stack = o.stack)
    (becomes : ∀ o : Output, o.Becomes (f o)) : P Unit (Output.modifyStack c f)
  onSink {α : Type} (f : Sink → α × Sink) : P α (Output.onSink c f)

theorem Run.IsClosed.forIn {α : Type} {c : ContextId} {P : (α : Type) → Run τ α → Prop}
    (closed : IsClosed c P) {items : List α} {f : α → Unit → Run τ (ForInStep Unit)}
    (each : ∀ a, P _ (f a ())) : P _ (ForIn.forIn items () f) := by
  induction items with
  | nil => exact closed.pure _
  | cons a rest ih =>
    rw [List.forIn_cons]
    refine closed.bind (each a) fun step => ?_
    cases step with
    | done => exact closed.pure _
    | yield => exact ih

namespace Output

variable {h : Host τ} {c : ContextId} {P : (α : Type) → Run τ α → Prop}

theorem bufferOf_closed (closed : Run.IsClosed c P) (b : BufferId) : P _ (bufferOf c b) :=
  closed.bind closed.context fun _ => closed.pure _

theorem modifyBuffer_closed (closed : Run.IsClosed c P) (b : BufferId) (f : Buffer → Buffer)
    (keeps : ∀ x, x.isClosed → (f x).isClosed) (pristine : ∀ x, (f x).pristine = x.pristine) :
    P _ (modifyBuffer c b f) :=
  closed.modifyStack (fun _ => rfl) fun _ => .used b f keeps pristine

variable (closed : Run.IsClosed c P)
  (filters : ∀ k chunk mode, P _ (h.filterOutput k c chunk mode))
include closed filters

theorem emit_closed {pass : Bytes → Run τ (Nat × Option OutputError)}
    (inner : ∀ text, P _ (pass text)) (b : BufferId) (mode : OutputMode) :
    P _ (emit h c pass b mode) := by
  have passed (chunk : Bytes) : P _ (if chunk.isEmpty then pure none else do
      return (← pass chunk).2 : Run τ (Option OutputError)) := by
    split
    next => exact closed.pure _
    next => exact closed.bind (inner chunk) fun _ => closed.pure _
  unfold emit
  refine closed.bind (bufferOf_closed closed b) fun buffer => ?_
  refine closed.bind (modifyBuffer_closed closed b _ (fun _ => id) fun _ => rfl) fun _ => ?_
  dsimp only
  split
  next => exact closed.bind (closed.pure _) passed
  next k _ =>
    refine closed.bind ?_ passed
    exact closed.bind (bufferOf_closed closed b) fun _ =>
      closed.bind (modifyBuffer_closed closed b _ (fun _ => id) fun _ => rfl) fun _ => filters k _ _

theorem deliver_closed (route : List BufferId) (text : Bytes) :
    P _ (deliver h c route text) := by
  induction route generalizing text with
  | nil => exact closed.onSink _
  | cons b below ih =>
    refine closed.bind (modifyBuffer_closed closed b _ (fun _ => id) fun _ => rfl) fun _ => ?_
    refine closed.bind (bufferOf_closed closed b) fun buffer => ?_
    split
    next => exact closed.bind (emit_closed closed filters ih b _) fun _ => closed.pure _
    next => exact closed.pure _

theorem echoBytes_closed (text : Bytes) : P _ (echoBytes h c text) := by
  have written : P _ (write h c text) := closed.bind closed.context fun _ =>
    closed.bind closed.context fun _ => deliver_closed closed filters _ text
  exact closed.bind written fun _ => closed.pure _

theorem close_closed (level : Level) : P _ (close h c level) := by
  cases level with
  | root =>
    have flushed : P _ (flush h c .root) := closed.onSink Sink.flush
    refine closed.bind closed.context fun x => ?_
    split
    next => exact closed.pure _
    next =>
      exact closed.bind (closed.modifyStack (fun _ => rfl) fun _ => .rootClosed) fun _ => flushed
  | buffer b =>
    refine closed.bind (bufferOf_closed closed b) fun buffer => ?_
    split
    next => exact closed.pure _
    next =>
      refine closed.bind (modifyBuffer_closed closed b _ (fun _ _ => rfl) fun _ => rfl) fun _ => ?_
      exact closed.bind (bufferOf_closed closed b) fun _ =>
        emit_closed closed filters (deliver_closed closed filters _) b _

end Output

theorem Diagnostics.reportFatal_closed {h : Host τ} {c : ContextId}
    {P : (α : Type) → Run τ α → Prop} (closed : Run.IsClosed c P)
    (filters : ∀ k chunk mode, P _ (h.filterOutput k c chunk mode))
    (reports : ∀ k e, P _ (h.reportFatal k c e)) (e : Fatal) : P _ (reportFatal h c e) := by
  have echoed := Output.echoBytes_closed closed filters
  have line : P _ (reportFatalLine h c e) := by
    refine closed.bind closed.context fun x => ?_
    split
    next k _ => exact reports k e
    next =>
      refine closed.bind (echoed _) fun _ => closed.bind (echoed _) fun _ => ?_
      split
      next => exact echoed _
      next => exact closed.pure _
  refine closed.bind line fun _ => closed.bind (closed.forIn fun text => ?_) fun _ => closed.pure _
  exact closed.bind (echoed text) fun _ => closed.pure _

namespace Diagnostics

variable {h : Host τ} {c : ContextId} {P : (α : Type) → Run τ α → Prop}

theorem frameAt_closed (closed : Run.IsClosed c P) (trace : Trace) : P _ (frameAt c trace) := by
  refine closed.bind closed.context fun x => ?_
  cases x.topFrame? <;> exact closed.pure _

variable (closed : Run.IsClosed c P) (filters : ∀ k chunk mode, P _ (h.filterOutput k c chunk mode))
  (handles : ∀ k m, P _ (h.handleError k c m)) (reports : ∀ k m, P _ (h.reportError k c m))
  (noted : ∀ m, P _ (Run.modifyDiagnostics c fun d => { d with last := some m }))
include closed filters handles reports noted

theorem trigger_closed (m : Message) : P _ (trigger h c m) := by
  have echoed := Output.echoBytes_closed closed filters
  have reported : P _ (reportError h c m) := by
    refine closed.bind closed.context fun x => ?_
    split
    next k _ => exact reports k m
    next => exact closed.bind (echoed _) fun _ => echoed _
  have decided (handled : Bool) : P _ (do
      if !handled && (← Run.context c).diagnostics.mask.enables m.severity then
        reportError h c m : Run τ Unit) := by
    refine closed.bind closed.context fun y => ?_
    split
    next => exact reported
    next => exact closed.pure _
  refine closed.bind (noted _) fun _ => closed.bind closed.context fun x => ?_
  cases x.diagnostics.accepting? m.severity with
  | some handler => exact closed.bind (handles handler.callback m) decided
  | none => exact closed.bind (closed.pure false) decided

theorem warning_closed (trace : Trace) (text : Bytes) : P _ (warning h c trace text) :=
  closed.bind (frameAt_closed closed trace) fun _ => closed.bind closed.context fun _ =>
    trigger_closed closed filters handles reports noted _

theorem raiseText_closed (fails : ∀ f, P Unit (Run.fail f)) (severity : Severity) (trace : Trace)
    (text : Bytes) : P _ (raiseText h c severity trace text) := by
  refine closed.bind (frameAt_closed closed trace) fun frame => ?_
  refine closed.bind closed.context fun x => ?_
  dsimp only
  split
  next => exact closed.bind (noted _) fun _ => fails _
  next => exact trigger_closed closed filters handles reports noted _

end Diagnostics

end ScriptHost
