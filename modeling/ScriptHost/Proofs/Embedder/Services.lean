import ScriptHost.Boundary
import ScriptHost.Proofs.Embedder.Following
import ScriptHost.Variables

set_option autoImplicit false

namespace ScriptHost

open Run

variable {σ α : Type} {home : Option ContextId}

theorem World.updateScope_congr {τ : Type} (w : World τ) (s : ScopeId) {f g : Scope → Scope}
    (same : f (w.scopes.get s) = g (w.scopes.get s)) : w.updateScope s f = w.updateScope s g :=
  congrArg (fun scopes => { w with scopes }) (w.scopes.modify_congr s same)

theorem World.scopeOf_updateScope {τ : Type} (w : World τ) (c : ContextId) (f : Scope → Scope)
    (known : w.scopes.has (w.context c).scope) :
    (w.updateScope (w.context c).scope f).scopeOf c = f (w.scopeOf c) :=
  w.scopes.get_modify_self _ f known

theorem World.updateContext_congr {τ : Type} (w : World τ) (c : ContextId)
    {f g : Context → Context} (same : f (w.context c) = g (w.context c)) :
    w.updateContext c f = w.updateContext c g :=
  congrArg (fun contexts => { w with contexts }) (w.contexts.modify_congr c same)

theorem World.has_of_ofClass {τ : Type} (w : World τ) {o : ObjectId} {k : ClassId}
    (ofClass : (w.objects.get o).ofClass = some k) : w.objects.has o := by
  by_cases known : w.objects.has o
  · exact known
  · rw [Pool.get_of_not_has _ known] at ofClass
    cases ofClass

def Context.fabric (x : Context) : Context.Holdings × Context.Lease ×
    (CallStack Activation × Nat) × Output × AutoloadChain × List Callback :=
  (x.holdings, x.lease, x.activity, x.output, x.autoload, x.shutdownFunctions)

namespace Run

section Reading

variable {τ : Type} (w : World τ)

@[simp] theorem context_apply (c : ContextId) : context c w = (.ok (w.context c), w) := rfl

@[simp] theorem scope_apply (s : ScopeId) : scope s w = (.ok (w.scopes.get s), w) := rfl

@[simp] theorem scopeOf_apply (c : ContextId) : scopeOf c w = (.ok (w.context c).scope, w) := rfl

@[simp] theorem classOf_apply (k : ClassId) : classOf k w = (.ok (w.classes.get k), w) := rfl

@[simp] theorem functionOf_apply (f : FunctionId) :
    functionOf f w = (.ok (w.functions.get f), w) := rfl

@[simp] theorem constantOf_apply (k : ConstantId) :
    constantOf k w = (.ok (w.constants.get k), w) := rfl

@[simp] theorem moduleOf_apply (m : ModuleId) : moduleOf m w = (.ok (w.modules.get m), w) := rfl

@[simp] theorem objectOf_apply (o : ObjectId) : objectOf o w = (.ok (w.objects.get o), w) := rfl

@[simp] theorem modifyContext_apply (c : ContextId) (f : Context → Context) :
    modifyContext c f w = (.ok (), w.updateContext c f) := rfl

@[simp] theorem modifyScope_apply (s : ScopeId) (f : Scope → Scope) :
    modifyScope s f w = (.ok (), w.updateScope s f) := rfl

end Reading

theorem context_follows (c : ContextId) : (context c : Run (Ledger σ) Context).Follows home :=
  .of_read fun _ => rfl

theorem scope_follows (s : ScopeId) : (scope s : Run (Ledger σ) Scope).Follows home :=
  .of_read fun _ => rfl

theorem classOf_follows (k : ClassId) : (classOf k : Run (Ledger σ) Class).Follows home :=
  .of_read fun _ => rfl

theorem functionOf_follows (f : FunctionId) : (functionOf f : Run (Ledger σ) Function).Follows home :=
  .of_read fun _ => rfl

theorem constantOf_follows (k : ConstantId) : (constantOf k : Run (Ledger σ) Constant).Follows home :=
  .of_read fun _ => rfl

theorem moduleOf_follows (m : ModuleId) : (moduleOf m : Run (Ledger σ) Module).Follows home :=
  .of_read fun _ => rfl

theorem objectOf_follows (o : ObjectId) : (objectOf o : Run (Ledger σ) Object).Follows home :=
  .of_read fun _ => rfl

theorem expand_follows (template : Bytes) (args : List Value) :
    (expand template args : Run (Ledger σ) Bytes).Follows home :=
  .of_read fun _ => rfl

theorem textOf_follows (v : Value) : (textOf v : Run (Ledger σ) Bytes).Follows home :=
  .of_read fun w => by cases v <;> rfl

theorem modifyContext_follows (c : ContextId) (f : Context → Context)
    (adjusts : ∀ x : Context, x.Adjusts (f x)) :
    (modifyContext c f : Run (Ledger σ) Unit).Follows (some c) :=
  .of_own_change fun _ w acts => .adjust w c f adjusts acts

theorem configure_follows (c : ContextId) (f : Context → Context)
    (keeps : ∀ x, (f x).fabric = x.fabric) :
    (modifyContext c f : Run (Ledger σ) Unit).Follows (some c) :=
  modifyContext_follows c f fun x => by
    have same := keeps x
    obtain ⟨holdings, rest⟩ := Prod.mk.inj same
    obtain ⟨lease, rest⟩ := Prod.mk.inj rest
    obtain ⟨activity, rest⟩ := Prod.mk.inj rest
    simp only [Prod.mk.injEq] at rest
    obtain ⟨output, autoload, shutdown⟩ := rest
    exact ⟨holdings, lease, activity, output ▸ .same, autoload ▸ .same,
      shutdown ▸ List.prefix_rfl⟩

theorem modifyDiagnostics_follows (c : ContextId) (f : Diagnostics → Diagnostics) :
    (modifyDiagnostics c f : Run (Ledger σ) Unit).Follows (some c) :=
  configure_follows c _ fun _ => rfl

theorem modifyAutoload_follows (c : ContextId) (f : AutoloadChain → AutoloadChain)
    (becomes : ∀ x : AutoloadChain, x.Becomes (f x)) :
    (modifyAutoload c f : Run (Ledger σ) Unit).Follows (some c) :=
  modifyContext_follows c _ fun x =>
    ⟨rfl, rfl, rfl, .same, becomes x.autoload, List.prefix_rfl⟩

theorem newTable_follows (t : Table Value) : (newTable t : Run (Ledger σ) TableId).Follows home :=
  .of_change fun _ w => .surroundings w _ _ _ _ _ _ _ _ (.added t) .same

theorem modifySink_follows (s : SinkId) (f : Sink → Sink) :
    (modifySink s f : Run (Ledger σ) Unit).Follows home :=
  .of_change fun _ w => .surroundings w _ _ (w.sinks.modify s f) _ _ _ _ _ .same .same

end Run

namespace Calls

theorem trace_follows (c : ContextId) : (trace c : Run (Ledger σ) Trace).Follows home :=
  .of_read fun _ => rfl

theorem pop_apply {τ : Type} (c : ContextId) (w : World τ) : (pop c w).2 = w.popFrame c := by
  rw [pop, bind_ok (context_apply w c), World.popFrame]
  cases (w.context c).calls.pop? <;> rfl

theorem during_apply {τ : Type} (c : ContextId) (f : Frame) (body : Run τ α) (w : World τ) :
    (during c f body w).2 = (body (w.pushFrame c f)).2.popFrame c := by
  show (ensuring body (pop c) (w.pushFrame c f)).2 = _
  rw [ensuring_apply, pop_apply]

theorem during_follows (c : ContextId) {f : Frame} (selfless : f.self = none)
    {body : Run (Ledger σ) α} (inner : body.Follows (some c)) :
    (during c f body).Follows (some c) := by
  intro making w ready
  have known : f.IsKnown w := fun o named => nomatch selfless.symm.trans named
  rw [during_apply]
  exact .frame c f (inner making _ (ready.pushFrame c known)) ⟨ready.acts c rfl, known⟩

section Asked

variable {making : List ContextId} {w : Recorded σ} {c : ContextId} {a : Action}
  (asked : w.embedder.running.head? = some (.act c a))
include asked

theorem push_course (moves : a.movesCalls) {f : Frame} (known : f.IsKnown w) :
    Course making w (push c f w : Except Signal Unit × Recorded σ).2 :=
  .change (.pushCall w c f a moves asked known)

theorem pushMethod_course (moves : a.movesCalls) (trace : Trace) (self : Option ObjectId)
    (method : Bytes) (args : Option (List Value)) :
    Course making w (pushMethod c trace self method args w : Except Signal Unit × Recorded σ).2 := by
  cases self with
  | none => exact .still w
  | some object =>
    rw [pushMethod, bind_ok (objectOf_apply w object)]
    cases ofClass : (w.objects.get object).ofClass with
    | none => exact .still w
    | some k =>
      dsimp only
      rw [bind_ok (classOf_apply w k)]
      refine push_course asked moves fun o named => ?_
      cases named
      exact w.has_of_ofClass ofClass

theorem pop_course (moves : a.movesCalls) :
    Course making w (pop c w : Except Signal Unit × Recorded σ).2 := by
  rw [pop_apply]
  exact .change (.popCall w c a moves asked)

theorem setArgument_course (assigns : a.assigns) (distance index : Int) (v : Value) :
    Course making w (setArgument c distance index v w : Except Signal Unit × Recorded σ).2 := by
  rw [setArgument, bind_ok (context_apply w c)]
  cases there : (w.context c).calls.peek distance with
  | none => exact .still w
  | some top =>
    dsimp only
    split
    next => exact .still w
    next => exact .change (.assign w c distance top _ there a assigns asked)

end Asked

end Calls

namespace Output

theorem modifyStack_follows (c : ContextId) (f : Output → Output)
    (becomes : ∀ o : Output, o.Becomes (f o)) :
    (modifyStack c f : Run (Ledger σ) Unit).Follows (some c) :=
  modifyContext_follows c _ fun x => ⟨rfl, rfl, rfl, becomes x.output, .same, List.prefix_rfl⟩

theorem bufferOf_follows (c : ContextId) (b : BufferId) :
    (bufferOf c b : Run (Ledger σ) Buffer).Follows home :=
  .of_read fun _ => rfl

theorem modifyBuffer_follows (c : ContextId) (b : BufferId) (f : Buffer → Buffer)
    (closed : ∀ x, x.isClosed → (f x).isClosed) (pristine : ∀ x, (f x).pristine = x.pristine) :
    (modifyBuffer c b f : Run (Ledger σ) Unit).Follows (some c) :=
  modifyStack_follows c _ fun _ => .used b f closed pristine

theorem onSink_follows (c : ContextId) (f : Sink → α × Sink) :
    (onSink c f : Run (Ledger σ) α).Follows (some c) := by
  refine .bind (context_follows c) fun x => .of_change fun _ w => ?_
  exact .surroundings w _ _ (w.sinks.modify x.output.sink fun _ => (f (w.sinks.get x.output.sink)).2)
    _ _ _ _ _ .same .same

theorem start_follows (c : ContextId) (handler : Option Callback) (chunkSize : Int)
    (isErasable : Bool) :
    (start c handler chunkSize isErasable : Run (Ledger σ) BufferId).Follows (some c) :=
  .bind (context_follows c) fun _ =>
    .bind (modifyStack_follows c _ fun _ => .started handler chunkSize isErasable) fun _ => .pure _

variable {h : Host (Ledger σ)} (follows : h.Follows)
include follows

theorem callHandler_follows (c : ContextId) (b : BufferId) (k : Callback) (chunk : Bytes)
    (mode : OutputMode) : (callHandler h c b k chunk mode).Follows (some c) :=
  .bind (bufferOf_follows c b) fun _ =>
    .bind (modifyBuffer_follows c b _ (fun _ => id) fun _ => rfl) fun _ =>
      follows.answer (.filterOutput ..) rfl

theorem emit_follows (c : ContextId) (pass : Bytes → Run (Ledger σ) (Nat × Option OutputError))
    (inner : ∀ text, (pass text).Follows (some c)) (b : BufferId) (mode : OutputMode) :
    (emit h c pass b mode).Follows (some c) := by
  have passed (chunk : Bytes) :
      (if chunk.isEmpty then pure none else do return (← pass chunk).2 :
        Run (Ledger σ) (Option OutputError)).Follows (some c) := by
    split
    next => exact .pure _
    next => exact .bind (inner chunk) fun _ => .pure _
  unfold emit
  refine .bind (bufferOf_follows c b) fun buffer => ?_
  refine .bind (modifyBuffer_follows c b _ (fun _ => id) fun _ => rfl) fun _ => ?_
  dsimp only
  split
  next => exact .bind (.pure _) passed
  next k _ => exact .bind (callHandler_follows follows c b k _ mode) passed

theorem deliver_follows (c : ContextId) (route : List BufferId) (text : Bytes) :
    (deliver h c route text).Follows (some c) := by
  induction route generalizing text with
  | nil => exact onSink_follows c _
  | cons b below ih =>
    refine .bind (modifyBuffer_follows c b _ (fun _ => id) fun _ => rfl) fun _ => ?_
    refine .bind (bufferOf_follows c b) fun buffer => ?_
    split
    next => exact .bind (emit_follows follows c _ ih b _) fun _ => .pure _
    next => exact .pure _

theorem writeTo_follows (c : ContextId) (level : Level) (text : Bytes) :
    (writeTo h c level text).Follows (some c) :=
  .bind (context_follows c) fun _ => deliver_follows follows c _ text

theorem write_follows (c : ContextId) (text : Bytes) : (write h c text).Follows (some c) :=
  .bind (context_follows c) fun _ => writeTo_follows follows c _ text

theorem drainBuffer_follows (c : ContextId) (b : BufferId) (mode : OutputMode) :
    (drainBuffer h c b mode).Follows (some c) :=
  .bind (bufferOf_follows c b) fun _ =>
    emit_follows follows c _ (deliver_follows follows c _) b mode

theorem flush_follows (c : ContextId) (level : Level) : (flush h c level).Follows (some c) := by
  cases level with
  | root => exact onSink_follows c Sink.flush
  | buffer b => exact drainBuffer_follows follows c b _

theorem clean_follows (c : ContextId) (level : Level) : (clean h c level).Follows (some c) := by
  cases level with
  | root => exact .pure _
  | buffer b =>
    have cleaned : (modifyBuffer c b fun x => { x with held := [] }).Follows (some c) (σ := σ) :=
      modifyBuffer_follows c b _ (fun _ => id) fun _ => rfl
    refine .bind (bufferOf_follows c b) fun buffer => ?_
    dsimp only
    split
    next => exact .pure _
    next =>
      split
      next k _ =>
        refine .bind (callHandler_follows follows c b k _ _) fun _ => ?_
        exact .bind cleaned fun _ => .pure _
      next => exact .bind cleaned fun _ => .pure _

theorem close_follows (c : ContextId) (level : Level) : (close h c level).Follows (some c) := by
  cases level with
  | root =>
    refine .bind (context_follows c) fun x => ?_
    split
    next => exact .pure _
    next => exact .bind (modifyStack_follows c _ fun _ => .rootClosed) fun _ =>
      flush_follows follows c .root
  | buffer b =>
    refine .bind (bufferOf_follows c b) fun buffer => ?_
    split
    next => exact .pure _
    next => exact .bind (modifyBuffer_follows c b _ (fun _ _ => rfl) fun _ => rfl) fun _ =>
      drainBuffer_follows follows c b _

theorem stop_follows (c : ContextId) : (stop h c).Follows (some c) := by
  refine .bind (context_follows c) fun x => ?_
  split
  next => exact .pure _
  next =>
    exact .bind (modifyStack_follows c _ fun _ => .resized _) fun _ =>
      .bind (close_follows follows c _) fun _ => .pure _

theorem discard_follows (c : ContextId) : (discard h c).Follows (some c) := by
  refine .bind (context_follows c) fun x => ?_
  split
  next => exact .pure _
  next b below _ =>
    refine .bind (clean_follows follows c _) fun refused => ?_
    split
    next => exact .pure _
    next =>
      exact .bind (modifyBuffer_follows c b _ (fun _ _ => rfl) fun _ => rfl) fun _ =>
        .bind (modifyStack_follows c _ fun _ => .resized _) fun _ =>
        .pure _

theorem stopAll_follows (c : ContextId) (rounds : Nat) : (stopAll h c rounds).Follows (some c) := by
  induction rounds with
  | zero => exact .throw _
  | succ rounds ih =>
    refine .bind (stop_follows follows c) fun stopped => ?_
    split
    next => exact ih
    next => exact .pure _

theorem flushAll_follows (c : ContextId) : (flushAll h c).Follows (some c) :=
  .bind (context_follows c) fun _ => .bind (stopAll_follows follows c _) fun _ =>
    .bind (close_follows follows c _) fun _ => .pure _

theorem echoBytes_follows (c : ContextId) (text : Bytes) : (echoBytes h c text).Follows (some c) :=
  .bind (write_follows follows c text) fun _ => .pure _

theorem echo_follows (c : ContextId) (v : Value) : (echo h c v).Follows (some c) :=
  .bind (textOf_follows v) fun _ => echoBytes_follows follows c _

end Output

namespace Diagnostics

theorem frameAt_follows (c : ContextId) (trace : Trace) :
    (frameAt c trace : Run (Ledger σ) Frame).Follows home := by
  refine .bind (context_follows c) fun x => ?_
  split <;> exact .pure _

theorem raiseText_fatal {τ : Type} (h : Host τ) (c : ContextId) {severity : Severity}
    (fatal : severity.isFatal) (unoffered : severity.isHandleable = false) (trace : Trace)
    (text : Bytes) (w : World τ) :
    raiseText h c severity trace text w =
      (.error (.failure (.fatal ⟨severity, text, trace, (w.context c).snapshot⟩)),
        w.updateContext c fun x => { x with
          diagnostics := { x.diagnostics with last := some ⟨severity, { trace }, text⟩ } }) := by
  have framed : ∃ frame, (frameAt c trace : Run τ Frame) w = (.ok frame, w) := by
    rw [frameAt, bind_ok (context_apply w c)]
    cases (w.context c).topFrame? <;> exact ⟨_, rfl⟩
  obtain ⟨frame, framed⟩ := framed
  rw [raiseText, bind_ok framed, bind_ok (context_apply w c)]
  simp only [fatal, unoffered, Bool.false_and, Bool.not_false, Bool.and_self, if_true]
  rfl

theorem raiseText_unwinds {τ : Type} (h : Host τ) (c : ContextId) {severity : Severity}
    (fatal : severity.isFatal) (unoffered : severity.isHandleable = false) (trace : Trace)
    (text : Bytes) (w w' : World τ) : raiseText h c severity trace text w ≠ (.ok (), w') := by
  rw [raiseText_fatal h c fatal unoffered]
  nofun

theorem error_unwinds {τ ι : Type} (h : Host τ) (c : ContextId) (read : Run τ ι) (trace : ι → Trace)
    (text : ι → Bytes) (w w' : World τ) :
    (read >>= fun e => error h c (trace e) (text e)) w ≠ (.ok (), w') := by
  intro returned
  obtain ⟨e, v, -, raised⟩ := of_bind_ok returned
  exact raiseText_unwinds h c (by decide) (by decide) _ _ v w' raised

theorem abort_follows (c : ContextId) (e : Fatal) :
    (abort c e : Run (Ledger σ) Unit).Follows (some c) :=
  .bind (modifyDiagnostics_follows c _) fun _ => .throw _

variable {h : Host (Ledger σ)} (follows : h.Follows)
include follows

theorem reportError_follows (c : ContextId) (m : Message) :
    (reportError h c m).Follows (some c) := by
  refine .bind (context_follows c) fun x => ?_
  split
  next => exact follows.answer (.reportError ..) rfl
  next =>
    exact .bind (Output.echoBytes_follows follows c _) fun _ => Output.echoBytes_follows follows c _

theorem reportFatalLine_follows (c : ContextId) (e : Fatal) :
    (reportFatalLine h c e).Follows (some c) := by
  refine .bind (context_follows c) fun x => ?_
  split
  next => exact follows.answer (.reportFatal ..) rfl
  next =>
    refine .bind (Output.echoBytes_follows follows c _) fun _ => ?_
    refine .bind (Output.echoBytes_follows follows c _) fun _ => ?_
    split
    next => exact Output.echoBytes_follows follows c _
    next => exact .pure _

theorem trigger_follows (c : ContextId) (m : Message) : (trigger h c m).Follows (some c) := by
  have reported (handled : Bool) :
      (do if !handled && (← Run.context c).diagnostics.mask.enables m.severity then
        reportError h c m).Follows (some c) := by
    refine .bind (context_follows c) fun x => ?_
    split
    next => exact reportError_follows follows c m
    next => exact .pure _
  refine .bind (modifyDiagnostics_follows c _) fun _ => ?_
  refine .bind (context_follows c) fun x => ?_
  dsimp only
  split
  next => exact .bind (follows.answer (.handleError ..) rfl) reported
  next => exact .bind (.pure _) reported

theorem raiseText_follows (c : ContextId) (severity : Severity) (trace : Trace) (text : Bytes) :
    (raiseText h c severity trace text).Follows (some c) := by
  refine .bind (frameAt_follows c trace) fun frame => ?_
  refine .bind (context_follows c) fun x => ?_
  dsimp only
  split
  next => exact abort_follows c _
  next => exact trigger_follows follows c _

theorem raise_follows (c : ContextId) (severity : Severity) (trace : Trace) (template : Bytes)
    (args : List Value) : (raise h c severity trace template args).Follows (some c) :=
  .bind (expand_follows template args) fun _ => raiseText_follows follows c severity trace _

theorem reportFatal_follows (c : ContextId) (e : Fatal) : (reportFatal h c e).Follows (some c) := by
  refine .bind (reportFatalLine_follows follows c e) fun _ => ?_
  refine .bind (.forIn _ fun line => ?_) fun _ => .pure _
  exact .bind (Output.echoBytes_follows follows c line) fun _ => .pure _

end Diagnostics

namespace Boundary

theorem guard_apply {τ : Type} (body : Run τ Unit) (w : World τ) :
    (guard body w).2 = (body w).2 := by
  unfold guard
  split
  next same => rw [same]
  next same => rw [same]; split <;> rfl
  next same => rw [same]

theorem guard_follows {body : Run (Ledger σ) Unit} (inner : body.Follows home) :
    (guard body).Follows home := by
  intro making w ready
  rw [guard_apply]
  exact inner making w ready

theorem setExceptionHandler_follows (c : ContextId) (handler : Option Callback) :
    (setExceptionHandler c handler : Run (Ledger σ) Unit).Follows (some c) :=
  modifyDiagnostics_follows c _

variable {h : Host (Ledger σ)} (follows : h.Follows)
include follows

theorem reportUncaught_follows (c : ContextId) (f : Failure) :
    (reportUncaught h c f).Follows (some c) := by
  unfold reportUncaught
  split
  next => exact Diagnostics.reportFatal_follows follows c _
  next =>
    exact .bind (Calls.trace_follows c) fun _ => Diagnostics.reportFatal_follows follows c _

theorem classify_follows (c : ContextId) (rounds : Nat) (f : Failure) :
    (classify h c rounds f).Follows (some c) := by
  induction rounds generalizing f with
  | zero => exact .throw _
  | succ rounds ih =>
    unfold classify
    split
    next => exact .pure _
    split
    next status _ _ =>
      refine .bind (Output.flushAll_follows follows c) fun _ => ?_
      exact .bind (follows.answer (.exit c status) rfl) fun _ => .pure _
    split
    next e _ => exact .bind (Diagnostics.reportFatal_follows follows c e) fun _ => .pure _
    split
    next => exact .pure _
    refine .bind (context_follows c) fun x => ?_
    refine .bind (guard_follows ?_) fun raised => ?_
    · split
      next => exact follows.answer (.handleException ..) rfl
      next => exact reportUncaught_follows follows c f
    refine .bind (context_follows c) fun y => ?_
    split
    next => exact .pure _
    next => exact .pure _
    next =>
      refine .bind (setExceptionHandler_follows c none) fun _ => ?_
      exact .ensuring (ih _) (setExceptionHandler_follows c _)

theorem catchUncaught_follows (c : ContextId) (f : Failure) :
    (catchUncaught h c f).Follows (some c) :=
  classify_follows follows c _ f

theorem catchSignal_follows (c : ContextId) (signal : Signal) :
    (catchSignal h c signal).Follows (some c) := by
  unfold catchSignal
  cases signal with
  | failure f =>
    dsimp only
    split
    next =>
      refine .bind (catchUncaught_follows follows c f) fun caught => ?_
      split
      next => exact .pure _
      next => exact .throw _
    next => exact .throw _
  | value v => exact .throw _
  | exhausted => exact .throw _

end Boundary

namespace Settings

theorem setSearchPath_follows (c : ContextId) (directories : List Bytes) :
    (setSearchPath c directories : Run (Ledger σ) Unit).Follows (some c) :=
  configure_follows c _ fun _ => rfl

theorem addSearchPath_follows (c : ContextId) (directory : Bytes) :
    (addSearchPath c directory : Run (Ledger σ) Unit).Follows (some c) :=
  configure_follows c _ fun _ => rfl

theorem lookup_follows (c : ContextId) (key : Bytes) :
    (lookup c key : Run (Ledger σ) (Option Bytes)).Follows home := by
  refine .bind (context_follows c) fun x => ?_
  split
  next => exact .pure _
  next => exact .bind (scope_follows x.scope) fun _ => .pure _

theorem observe_follows (key : Bytes) (k : Option Callback) :
    (observe key k : Run (Ledger σ) Unit).Follows home := by
  cases k with
  | none =>
    exact .of_change fun _ w => .surroundings w _ _ _ _ _ _ (w.observers.erase key) _ .same .same
  | some k =>
    exact .of_change fun _ w =>
      .surroundings w _ _ _ _ _ _ (w.observers.insert key (.callback k)) _ .same .same

variable {h : Host (Ledger σ)} (follows : h.Follows)
include follows

theorem notify_follows (c : ContextId) (key : Bytes) (value : Option Bytes) :
    (notify h c key value).Follows (some c) := by
  refine .bind .get fun w => ?_
  split
  next => exact .pure _
  next => exact setSearchPath_follows c _
  next => exact follows.answer (.settingChanged ..) rfl

theorem set_follows (c : ContextId) (key : Bytes) (v : Value) :
    (set h c key v).Follows (some c) := by
  refine .bind (lookup_follows c key) fun previous => ?_
  refine .bind (textOf_follows v) fun text => ?_
  refine .bind (notify_follows follows c key _) fun _ => ?_
  exact .bind (configure_follows c _ fun _ => rfl) fun _ => .pure _

theorem restore_follows (c : ContextId) (key : Bytes) : (restore h c key).Follows (some c) := by
  refine .bind (configure_follows c _ fun _ => rfl) fun _ => ?_
  exact .bind (lookup_follows c key) fun value => notify_follows follows c key value

end Settings

namespace Variables

theorem setGlobal_follows (c : ContextId) (name : Bytes) (v : Value) :
    (setGlobal c name v : Run (Ledger σ) Unit).Follows (some c) :=
  fun _ w ready => .change <| .surroundings w _ _ _ _ _ _ _ _
    (.assigned c (ready.present c rfl) (ready.acts c rfl) _) .same

theorem static_follows (c : ContextId) (name : Bytes) (initial : Value) :
    (static c name initial : Run (Ledger σ) Value).Follows (some c) := by
  refine .bind (context_follows c) fun x => ?_
  split
  next => exact .pure _
  next => exact .bind (configure_follows c _ fun _ => rfl) fun _ => .pure _

theorem setStatic_follows (c : ContextId) (name : Bytes) (v : Value) :
    (setStatic c name v : Run (Ledger σ) Unit).Follows (some c) :=
  configure_follows c _ fun _ => rfl

theorem attach_follows (c : ContextId) (key : Bytes) (v : Value) :
    (attach c key v : Run (Ledger σ) Unit).Follows (some c) :=
  configure_follows c _ fun _ => rfl

theorem detach_follows (c : ContextId) (key : Bytes) :
    (detach c key : Run (Ledger σ) Unit).Follows (some c) :=
  configure_follows c _ fun _ => rfl

theorem runShell_follows {h : Host (Ledger σ)} (follows : h.Follows) (c : ContextId)
    (command : Bytes) : (runShell h c command).Follows (some c) := by
  refine .bind (context_follows c) fun x => ?_
  split
  next k _ =>
    refine .bind (follows.answer (.runShell k c command) rfl) fun result => ?_
    cases result with
    | ok output => exact .pure _
    | error f =>
      refine .bind (Calls.trace_follows c) fun trace => ?_
      exact .bind (Diagnostics.raiseText_follows follows c .warning trace _) fun _ => .pure _
  next => exact .pure _

end Variables

namespace Connection

theorem newDatabase_follows (d : Database) : (newDatabase d : Run (Ledger σ) DatabaseId).Follows home :=
  .of_change fun _ w => .surroundings w _ _ _ (w.databases.add d) _ _ _ _ .same .same

theorem newStore_follows (s : Store) : (newStore s : Run (Ledger σ) StoreId).Follows home :=
  .of_change fun _ w => .surroundings w _ _ _ _ (w.stores.add s) _ _ _ .same .same

theorem modifyFiles_follows (f : Recorded σ → FileTree) :
    (modify fun w => { w with files := f w } : Run (Ledger σ) Unit).Follows home :=
  .of_change fun _ w => .surroundings w _ _ _ _ _ (f w) _ _ .same .same

theorem databaseAt_follows (place : Bytes) (access : Access) :
    (databaseAt place access : Run (Ledger σ) (Except OpenError DatabaseId)).Follows home := by
  refine .bind .get fun w => ?_
  dsimp only
  split
  next => exact .pure _
  next d content _ =>
    split
    next => exact .pure _
    split
    next => exact .pure _
    next =>
      refine .bind (.of_change fun _ v => ?_) fun _ => .pure _
      exact .surroundings v _ _ _ (v.databases.modify d fun _ => .empty) _
        (w.files.put place (.database d)) _ _ .same .same
  next =>
    split
    next => exact .pure _
    split
    next => exact .pure _
    next =>
      refine .bind (newDatabase_follows _) fun d => ?_
      exact .bind (modifyFiles_follows fun _ => w.files.put place (.database d)) fun _ => .pure _
  next => exact .pure _

theorem prepare_follows (path : Bytes) (access : Access) :
    (prepare path access : Run (Ledger σ) (Except OpenError Bytes)).Follows home := by
  refine .bind .get fun w => ?_
  dsimp only
  split
  next => exact .pure _
  next place _ =>
    split
    next => exact .pure _
    next => exact .bind (modifyFiles_follows fun _ => w.files.put place (.file [])) fun _ => .pure _
    next => exact .pure _

theorem databaseOf_follows (name : Bytes) :
    (databaseOf name : Run (Ledger σ) (Except OpenError (DatabaseId × Access))).Follows home := by
  unfold databaseOf
  split
  next => exact .pure _
  next =>
    split
    next => exact .pure _
    next => exact .bind (newDatabase_follows _) fun _ => .pure _
  next path access _ =>
    refine .bind (prepare_follows path access) fun prepared => ?_
    split
    next => exact .pure _
    next place =>
      split
      next => exact .pure _
      next =>
        refine .bind (databaseAt_follows place access) fun database => ?_
        split <;> exact .pure _

theorem connect_follows (name : Bytes) (now : Int64) :
    (connect name now : Run (Ledger σ) (Except OpenError StoreId)).Follows home := by
  refine .bind .get fun w => ?_
  dsimp only
  refine .bind (modifyFiles_follows fun _ => (w.files.makeDirectories (Path.parent name)).1)
    fun _ => ?_
  split
  next => exact .pure _
  next =>
    refine .bind (databaseOf_follows name) fun database => ?_
    split
    next => exact .pure _
    next => exact .bind (newStore_follows _) fun _ => .pure _

theorem close_follows (s : StoreId) : (close s : Run (Ledger σ) Unit).Follows home :=
  .of_change fun _ w =>
    .surroundings w _ _ _ _ (w.stores.modify s fun x => { x with isClosed := true }) _ _ _
      .same .same

theorem reading_follows (s : StoreId) (action : StoreAction)
    (f : Database → Except StoreError α) :
    (reading s action f : Run (Ledger σ) (Except StoreError α)).Follows home := by
  refine .bind .get fun w => ?_
  dsimp only
  split <;> exact .pure _

theorem changing_returns {τ : Type} (s : StoreId) (action : StoreAction)
    (f : Store → Database → Except StoreError (α × Database)) (w : World τ) :
    ∃ result, (changing s action f w).1 = .ok result := by
  unfold changing
  rw [bind_apply, get_apply]
  dsimp only
  cases obstacle? w (w.stores.get s) action with
  | some e => exact ⟨_, rfl⟩
  | none =>
    dsimp only
    split
    next => exact ⟨_, rfl⟩
    cases f (w.stores.get s) (w.databases.get (w.stores.get s).database) with
    | error e => exact ⟨_, rfl⟩
    | ok changed => exact ⟨_, rfl⟩

theorem changing_follows (s : StoreId) (action : StoreAction)
    (f : Store → Database → Except StoreError (α × Database)) :
    (changing s action f : Run (Ledger σ) (Except StoreError α)).Follows home := by
  intro making w _
  unfold changing
  rw [bind_apply, get_apply]
  dsimp only
  cases obstacle? w (w.stores.get s) action with
  | some e => exact .still w
  | none =>
    dsimp only
    split
    next => exact .still w
    cases f (w.stores.get s) (w.databases.get (w.stores.get s).database) with
    | error e => exact .still w
    | ok changed =>
      exact .change (.surroundings w _ _ _
        (w.databases.modify (w.stores.get s).database fun _ => changed.2) _ _ _ _ .same .same)

end Connection

end ScriptHost
