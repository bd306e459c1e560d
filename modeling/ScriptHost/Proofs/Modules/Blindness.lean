import ScriptHost.Proofs.Embedder.Contexts
import ScriptHost.Proofs.Modules.Twins

set_option autoImplicit false

namespace ScriptHost

open Run

variable {σ ν α : Type} {h : Host σ} {caching : Caching σ ν}

structure Host.Overlooks (h : Host σ) (caching : Caching σ ν) : Prop where
  compile : ∀ k c source, Blind h caching (h.compile k c source)
  enterClass : ∀ k c, Blind h caching (h.enterClass k c)
  handleError : ∀ k c m, Blind h caching (h.handleError k c m)
  reportError : ∀ k c m, Blind h caching (h.reportError k c m)
  filterOutput : ∀ k c chunk mode, Blind h caching (h.filterOutput k c chunk mode)
  loadExtension : ∀ k c, Blind h caching (h.loadExtension k c)

theorem World.Trusted.updateScope {w : World σ} (trusted : w.Trusted h caching) (s : ScopeId)
    {f : Scope → Scope} (cache : ∀ x, (f x).cache = x.cache)
    (compiler : ∀ x, (f x).compiler = x.compiler) : (w.updateScope s f).Trusted h caching := by
  refine ⟨fun d => ?_, trusted.entries⟩
  have kept := w.scopes.modify_keeps s d f (fun x => (x.cache, x.compiler)) fun x => by
    rw [cache, compiler]
  obtain ⟨sameCache, sameCompiler⟩ := Prod.ext_iff.1 kept
  obtain ⟨own, fits⟩ := trusted.scopes d
  exact ⟨fun cache given => own cache (sameCache.symm.trans given), fun cache x given compiles =>
    fits cache x (sameCache.symm.trans given) (sameCompiler.symm.trans compiles)⟩

theorem World.bare_updateScope (w : World σ) (visible : σ → ν) (s : ScopeId) {f g : Scope → Scope}
    (commutes : ∀ x, (f x).uncached = g x.uncached) :
    (w.updateScope s f).bare visible = (w.bare visible).updateScope s g :=
  congrArg (fun scopes => { w.bare visible with scopes }) (w.scopes.map_modify commutes s)

theorem Run.modifyScope_blind (s : ScopeId) {f : Scope → Scope}
    (commutes : ∀ x, (f x).uncached = f x.uncached) (cache : ∀ x, (f x).cache = x.cache)
    (compiler : ∀ x, (f x).compiler = x.compiler) : Blind h caching (modifyScope s f) :=
  .of_bare (modifyScope s f) (fun w => congrArg (Prod.mk _) (w.bare_updateScope _ s commutes))
    fun _ trusted => trusted.updateScope s cache compiler

theorem Run.isClosed_blind (h : Host σ) (caching : Caching σ ν) (c : ContextId) :
    Run.IsClosed c fun α (m : Run σ α) => Blind h caching m where
  pure := .pure
  bind := .bind
  context := context_blind h caching c
  modifyStack _ _ := modifyContext_blind h caching c _
  onSink f := .of_bare (Output.onSink c f) (fun _ => rfl)
    fun _ trusted => ⟨trusted.scopes, trusted.entries⟩

theorem Diagnostics.raiseText_blind (overlooks : h.Overlooks caching) (c : ContextId)
    (severity : Severity) (trace : Trace) (text : Bytes) :
    Blind h caching (raiseText h c severity trace text) :=
  raiseText_closed (isClosed_blind h caching c)
    (fun k chunk mode => overlooks.filterOutput k c chunk mode)
    (fun k m => overlooks.handleError k c m) (fun k m => overlooks.reportError k c m)
    (fun _ => modifyContext_blind h caching c _) (fun _ => .throw _) severity trace text

namespace ClassRegistry

variable (overlooks : h.Overlooks caching)
include overlooks

theorem enter_blind (c : ContextId) (k : ClassId) : Blind h caching (enter h c k) := by
  refine .bind (classOf_blind h caching k) fun e => ?_
  refine .bind (modifyContext_blind h caching c _) fun _ => ?_
  cases e.onEnter with
  | none => exact .pure _
  | some hook =>
    refine .bind (overlooks.enterClass hook c) fun failure => ?_
    cases failure with
    | none => exact .pure _
    | some f =>
      exact .bind (modifyContext_blind h caching c _) fun _ =>
        Diagnostics.raiseText_blind overlooks c _ _ _

theorem find_blind (c : ContextId) (name : Bytes) : Blind h caching (find h c name) := by
  unfold find findLower
  refine .bind (context_blind h caching c) fun x => ?_
  split
  next => exact .pure _
  next =>
    refine .scope_bind x.scope (fun _ => rfl) fun s => ?_
    split
    next k _ =>
      refine .bind (classOf_blind h caching k) fun e => ?_
      split
      next => exact .pure _
      next => exact .bind (enter_blind overlooks c k) fun _ => .pure _
    next => exact .pure _

theorem declare_blind (c : ContextId) (k : ClassId) : Blind h caching (declare h c k) := by
  refine .bind (classOf_blind h caching k) fun e => ?_
  refine .bind (find_blind overlooks c e.name) fun found => ?_
  cases found with
  | some => exact .pure _
  | none =>
    refine .bind (classOf_blind h caching k) fun e => ?_
    have entered : Blind h caching (do enter h c k; return true) :=
      .bind (enter_blind overlooks c k) fun _ => .pure _
    dsimp only
    split
    next =>
      refine .bind (scopeOf_blind h caching c) fun s => ?_
      refine .scope_bind s (fun _ => rfl) fun x => ?_
      rcases Scope.enter x.classes e.lowerName k with ⟨current, classes⟩
      dsimp only
      split
      next => exact .pure _
      next =>
        exact .bind (modifyScope_blind s (fun _ => rfl) (fun _ => rfl) fun _ => rfl)
          fun _ => entered
    next => exact entered

end ClassRegistry

namespace FunctionRegistry

theorem fetch_blind (c : ContextId) (name : Bytes) :
    Blind h caching (fetch c name : Run σ (Option FunctionId)) := by
  refine .bind (context_blind h caching c) fun x => ?_
  split
  next => exact .pure _
  next =>
    refine .scope_bind x.scope (fun _ => rfl) fun s => ?_
    split
    next => exact .bind (modifyContext_blind h caching c _) fun _ => .pure _
    next => exact .pure _

theorem declare_blind (c : ContextId) (f : FunctionId) :
    Blind h caching (declare c f : Run σ Bool) := by
  refine .bind (functionOf_blind h caching f) fun e => ?_
  refine .bind (fetch_blind c e.name) fun found => ?_
  cases found with
  | some => exact .pure _
  | none =>
    have entered : Blind h caching (do
        Run.modifyContext c fun x => { x with functions := x.functions.insert e.lowerName f }
        return true : Run σ Bool) :=
      .bind (modifyContext_blind h caching c _) fun _ => .pure _
    dsimp only
    split
    next =>
      refine .bind (scopeOf_blind h caching c) fun s => ?_
      refine .scope_bind s (fun _ => rfl) fun x => ?_
      rcases Scope.enter x.functions e.lowerName f with ⟨current, functions⟩
      dsimp only
      split
      next => exact .pure _
      next =>
        exact .bind (modifyScope_blind s (fun _ => rfl) (fun _ => rfl) fun _ => rfl)
          fun _ => entered
    next => exact entered

end FunctionRegistry

namespace ConstantRegistry

theorem add_blind (c : ContextId) (k : ConstantId) : Blind h caching (add c k : Run σ Unit) :=
  .bind (constantOf_blind h caching k) fun _ => modifyContext_blind h caching c _

theorem find_blind (c : ContextId) (name : Bytes) :
    Blind h caching (find c name : Run σ (Option ConstantId)) := by
  refine .bind (context_blind h caching c) fun x => ?_
  split
  next => exact .pure _
  next =>
    refine .scope_bind x.scope (fun _ => rfl) fun s => ?_
    split
    next k _ => exact .bind (add_blind c k) fun _ => .pure _
    next => exact .pure _

theorem declare_blind (c : ContextId) (k : ConstantId) :
    Blind h caching (declare c k : Run σ Bool) := by
  refine .bind (constantOf_blind h caching k) fun e => ?_
  refine .bind (find_blind c e.name) fun found => ?_
  cases found with
  | some => exact .pure _
  | none =>
    refine .bind (scopeOf_blind h caching c) fun s => ?_
    refine .scope_bind s (fun _ => rfl) fun x => ?_
    rcases enterSet x.constants e k with ⟨current, constants⟩
    dsimp only
    split
    next => exact .pure _
    next =>
      refine .bind (modifyScope_blind s (fun _ => rfl) (fun _ => rfl) fun _ => rfl) fun _ => ?_
      exact .bind (add_blind c k) fun _ => .pure _

end ConstantRegistry

namespace Modules

variable (overlooks : h.Overlooks caching)

section Declaring

include overlooks

theorem declareClasses_blind (c : ContextId) (classes : List ClassId) :
    Blind h caching (declareClasses h c classes) := by
  induction classes with
  | nil => exact .pure _
  | cons k rest ih =>
    refine .bind (classOf_blind h caching k) fun e => ?_
    dsimp only
    split
    next =>
      refine .bind (ClassRegistry.declare_blind overlooks c k) fun declared => ?_
      split
      next =>
        refine .bind (classOf_blind h caching k) fun e => ?_
        exact .bind (Diagnostics.raiseText_blind overlooks c _ _ _) fun _ => ih
      next => exact ih
    next => exact ih

theorem declareFunctions_blind (c : ContextId) (functions : List FunctionId) :
    Blind h caching (declareFunctions h c functions) := by
  induction functions with
  | nil => exact .pure _
  | cons f rest ih =>
    refine .bind (functionOf_blind h caching f) fun e => ?_
    dsimp only
    split
    next =>
      refine .bind (FunctionRegistry.declare_blind c f) fun declared => ?_
      split
      next => exact .bind (Diagnostics.raiseText_blind overlooks c _ _ _) fun _ => ih
      next => exact ih
    next => exact ih

theorem declareConstants_blind (c : ContextId) (constants : List ConstantId) :
    Blind h caching (declareConstants h c constants) := by
  induction constants with
  | nil => exact .pure _
  | cons k rest ih =>
    refine .bind (ConstantRegistry.declare_blind c k) fun declared => ?_
    dsimp only
    split
    next =>
      refine .bind (constantOf_blind h caching k) fun e => ?_
      exact .bind (Diagnostics.raiseText_blind overlooks c _ _ _) fun _ => ih
    next => exact ih

theorem register_blind (c : ContextId) (m : ModuleId) : Blind h caching (register h c m) := by
  have declared : Blind h caching (declareAll h c m) := by
    refine .bind (moduleOf_blind h caching m) fun e => ?_
    refine .bind (declareClasses_blind overlooks c _) fun _ => ?_
    refine .bind (declareFunctions_blind overlooks c _) fun _ => ?_
    exact declareConstants_blind overlooks c _
  refine .bind declared fun _ => ?_
  exact .bind (moduleOf_blind h caching m) fun e => modifyContext_blind h caching c _

end Declaring

theorem setImporting_blind (s : ScopeId) (isImporting : Bool) :
    Blind h caching (setImporting s isImporting : Run σ Unit) :=
  modifyScope_blind s (fun _ => rfl) (fun _ => rfl) fun _ => rfl

theorem conclude_blind (s : ScopeId) (source : Source) (m : ModuleId) :
    Blind h caching (conclude s source m : Run σ Unit) := by
  have minted : Blind h caching (mint : Run σ Bytes) :=
    .of_bare mint (fun _ => rfl) fun _ trusted => ⟨trusted.scopes, trusted.entries⟩
  have changed (f : Module → Module) : Blind h caching (modifyModule m f : Run σ Unit) :=
    .of_bare (modifyModule m f) (fun _ => rfl) fun _ trusted => ⟨trusted.scopes, trusted.entries⟩
  have published :
      Blind h caching (do let w ← get; Run.modifyScope s (publishIn w m) : Run σ Unit) :=
    .of_bare (do let w ← get; Run.modifyScope s (publishIn w m))
      (fun w => congrArg (Prod.mk _) (w.bare_updateScope caching.visible s fun _ => rfl))
      fun w trusted => trusted.updateScope s (fun _ => rfl) fun _ => rfl
  refine .bind (moduleOf_blind h caching m) fun e => ?_
  dsimp only
  split
  next => exact .bind minted fun _ => .bind (changed _) fun _ => published
  next => exact .bind (.pure _) fun _ => .bind (changed _) fun _ => published

end Modules

namespace Execution

variable (overlooks : h.Overlooks caching)
include overlooks

theorem loadExtensions_blind (c : ContextId) (extensions : List Callback) :
    Blind h caching (loadExtensions h c extensions) := by
  induction extensions with
  | nil => exact .pure _
  | cons k rest ih => exact .bind (overlooks.loadExtension k c) fun _ => ih

theorem setUp_blind (c : ContextId) (scope : Scope) (options : ContextOptions) :
    Blind h caching (setUp h c scope options) :=
  have changed (f : Context → Context) : Blind h caching (Run.modifyContext c f) :=
    modifyContext_blind h caching c f
  setUp_closed (P := fun _ m => Blind h caching m) .bind (fun _ => changed _) (fun _ => changed _)
    (FunctionRegistry.fetch_blind c _) (functionOf_blind h caching) (fun _ => changed _) (changed _)
    (loadExtensions_blind overlooks c _)

theorem create_blind (s : ScopeId) (sink : SinkId) (options : ContextOptions) :
    Blind h caching (create h s sink options) := by
  refine .scope_bind s (fun _ => rfl) fun scope => ?_
  refine .bind (.of_bare (ScopeRegistry.acquire scope.ids) (fun _ => rfl) fun _ trusted =>
    ⟨trusted.scopes, trusted.entries⟩) fun number => ?_
  refine .bind (newTable_blind h caching _) fun globals => ?_
  refine .bind (.of_bare (Variables.modifyTable globals _) (fun _ => rfl) fun _ trusted =>
    ⟨trusted.scopes, trusted.entries⟩) fun _ => ?_
  refine .bind (.of_bare (install (fresh number s scope sink globals)) (fun _ => rfl)
    fun _ trusted => ⟨trusted.scopes, trusted.entries⟩) fun c => ?_
  exact .bind (setUp_blind overlooks c scope options) fun _ => .pure _

end Execution

end ScriptHost
