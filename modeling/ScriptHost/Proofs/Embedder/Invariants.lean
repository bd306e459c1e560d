import ScriptHost.Proofs.Embedder.Services

set_option autoImplicit false

namespace ScriptHost

variable {σ : Type} {making : List ContextId}

theorem World.Sound.embed {τ τ' : Type} {w : World τ} (sound : w.Sound) (own : τ') :
    World.Sound { w with embedder := own } where
  modules := sound.modules
  scopes s := ⟨(sound.scopes s).classes, (sound.scopes s).functions, (sound.scopes s).exact,
    (sound.scopes s).folded⟩
  contexts c :=
    have own := sound.contexts c
    ⟨⟨own.declarations.classes, own.declarations.functions, own.declarations.exact,
      own.declarations.folded⟩, ⟨own.calls.below, own.calls.unique, own.calls.known⟩, own.tracker,
      own.tracked⟩
  housed := sound.housed

theorem World.Sound.unrecorded {w : Recorded σ} (sound : w.Sound) : w.unrecorded.Sound :=
  sound.embed _

theorem World.Sound.of_unrecorded {w : Recorded σ} (sound : w.unrecorded.Sound) : w.Sound :=
  sound.embed w.embedder

theorem World.Extends.unrecorded {w w' : Recorded σ} (later : w.Extends w') :
    w.unrecorded.Extends w'.unrecorded :=
  ⟨later.classes, later.functions, later.constants, later.modules, later.scopes, later.objects,
    later.contexts⟩

theorem World.unrecorded_popFrame (w : Recorded σ) (c : ContextId) :
    (w.popFrame c).unrecorded = w.unrecorded.popFrame c := by
  unfold World.popFrame
  rw [show (w.unrecorded.context c).calls = (w.context c).calls from rfl]
  cases (w.context c).calls.pop? <;> rfl

theorem World.unrecorded_conclude (w : Recorded σ) (s : ScopeId) (source : Source) (m : ModuleId) :
    (w.conclude s source m).unrecorded = w.unrecorded.conclude s source m := by
  unfold World.conclude Modules.conclude
  rw [Run.bind_ok (Run.moduleOf_apply w m), Run.bind_ok (Run.moduleOf_apply w.unrecorded m),
    show w.unrecorded.modules = w.modules from rfl]
  dsimp only
  cases (w.modules.get m).internalName.isEmpty <;> rfl

structure World.IsInvariant (P : World σ → Prop) : Prop where
  change : ∀ {making : List ContextId} {w w' : Recorded σ}, Change making w w' →
    P w.unrecorded → P w'.unrecorded
  pushFrame : ∀ {w : World σ} (c : ContextId) {f : Frame}, f.IsKnown w → P w → P (w.pushFrame c f)
  popFrame : ∀ {w : World σ} (c : ContextId), P w → P (w.popFrame c)
  updateLoaders : ∀ {w : World σ} (c : ContextId) (f : AutoloadChain → AutoloadChain),
    P w → P (w.updateLoaders c f)
  markFinalized : ∀ {w : World σ} (o : ObjectId), P w → P (w.markFinalized o)
  insertClass : ∀ {w : World σ} (c : ContextId) {k : ClassId}, w.classes.has k →
    P w → P (w.insertClass c k)
  eraseClass : ∀ {w : World σ} (c : ContextId) (lower : Bytes),
    P w → P (w.updateContext c fun x => { x with classes := x.classes.erase lower })
  recordModule : ∀ {w : World σ} (c : ContextId) (m : ModuleId), P w → P (w.recordModule c m)
  setImporting : ∀ {w : World σ} (s : ScopeId) (isImporting : Bool),
    P w → P (w.setImporting s isImporting)
  conclude : ∀ {w : World σ} (s : ScopeId) (source : Source) (m : ModuleId),
    P w → P (w.conclude s source m)
  enlist : ∀ {w : World σ} {s : ScopeId} (sink : SinkId), w.scopes.has s → P w → P (w.enlist s sink)

section Invariant

variable {P : World σ → Prop} (invariant : World.IsInvariant P)
include invariant

theorem World.IsInvariant.leaveHook {w : Recorded σ} (c : ContextId) (lower : Bytes)
    (hook : Callback) (outcome : Except Signal (Option Failure)) (holds : P w.unrecorded) :
    P (w.leaveHook c lower hook outcome).unrecorded := by
  unfold World.leaveHook
  split
  next => exact invariant.eraseClass c lower holds
  next => exact holds

theorem World.IsInvariant.concluded {w w' : Recorded σ} {s : ScopeId} {source : Source}
    {m : ModuleId} (ended : w.Concluded s source m w') (holds : P w.unrecorded) :
    P w'.unrecorded := by
  rcases ended with rfl | ⟨rfl, -⟩
  · rw [World.unrecorded_conclude]
    exact invariant.conclude s source m holds
  · exact holds

theorem Course.throughout {w w' : Recorded σ} (course : Course making w w')
    (holds : P w.unrecorded) : P w'.unrecorded ∧ w.Adds (P ·.world) w' := by
  induction course with
  | still => exact ⟨holds, .of_same rfl⟩
  | change step => exact ⟨invariant.change step holds, step.adds fun _ _ _ => holds⟩
  | trans _ _ ih ih' =>
    obtain ⟨between, early⟩ := ih holds
    obtain ⟨ended, late⟩ := ih' between
    exact ⟨ended, early.trans late⟩
  | operation o outcome _ _ _ ih =>
    obtain ⟨ended, within⟩ := ih holds
    exact ⟨ended, World.Adds.finish within ended⟩
  | @frame _ w w' c f _ calls ih =>
    obtain ⟨ended, within⟩ := ih (invariant.pushFrame c calls.known holds)
    refine ⟨?_, World.Adds.popFrame within c⟩
    rw [World.unrecorded_popFrame]
    exact invariant.popFrame c ended
  | @autoload _ w w' c key _ _ _ _ ih =>
    obtain ⟨ended, within⟩ := ih (invariant.updateLoaders c (·.enter key) holds)
    exact ⟨invariant.updateLoaders c (·.leave key) ended, within.trans (.of_same rfl)⟩
  | @destructor _ w v w' c o k f _ there _ retires _ calls ih =>
    have marked : P (w.markFinalized o).unrecorded := invariant.markFinalized o holds
    have given : P v.unrecorded := retires.elim (P := (P ·.unrecorded)) there calls.acts marked
      (invariant.change · marked)
    have known : f.IsKnown v := calls.known.extend retires.extends
    have pushed : P (v.pushFrame c f).unrecorded := invariant.pushFrame c known given
    obtain ⟨ended, within⟩ := ih pushed
    have called := World.Adds.of_event (v := v.pushFrame c f) retires.embedder pushed within
    refine ⟨?_, called.popFrame c⟩
    rw [World.unrecorded_popFrame]
    exact invariant.popFrame c ended
  | @hook _ w w' c k k' _ known _ _ outcome _ _ _ ih =>
    have inserted : P (w.insertClass c k).unrecorded := invariant.insertClass c known holds
    obtain ⟨ended, within⟩ := ih inserted
    exact ⟨invariant.leaveHook c _ k' outcome ended,
      (World.Adds.of_event rfl inserted within).leaveHook ended⟩
  | registration c m _ _ _ _ ih =>
    obtain ⟨ended, within⟩ := ih holds
    exact ⟨invariant.recordModule c m ended, within.trans (.of_same rfl)⟩
  | attempt _ _ _ _ ih =>
    obtain ⟨ended, within⟩ := ih (invariant.setImporting _ true holds)
    exact ⟨invariant.setImporting _ false ended, within⟩
  | @loading _ w u v w' c source _ _ _ _ event m _ _ ended ih ih' =>
    obtain ⟨locked, early⟩ := ih (invariant.setImporting _ true holds)
    obtain ⟨kept, late⟩ := ih' locked
    have begun : w.Adds (P ·.world) u := early
    have answered := World.Adds.of_event rfl locked late
    exact ⟨invariant.setImporting _ false (invariant.concluded ended kept),
      begun.trans (answered.trans (.of_same (congrArg Ledger.journal ended.embedder)))⟩
  | creation s sink known _ _ ih => exact ih (invariant.enlist sink known holds)

end Invariant

theorem World.sound_invariant : World.IsInvariant (World.Sound (τ := σ)) where
  change step sound := (step.sound (.of_unrecorded sound)).unrecorded
  pushFrame c _ known sound := sound.pushFrame c known
  popFrame c sound := sound.popFrame c
  updateLoaders c f sound := sound.updateLoaders c f
  markFinalized o sound := sound.markFinalized o
  insertClass c _ known sound := sound.insertClass c _ known
  eraseClass c lower sound := sound.eraseClass c lower
  recordModule c m sound := sound.recordModule c m
  setImporting s isImporting sound := sound.setImporting s isImporting
  conclude s source m sound := sound.conclude s source m
  enlist sink known sound := sound.enlist known sink

theorem World.extends_invariant (u : World σ) : World.IsInvariant (u.Extends ·) where
  change step onward := onward.trans step.extends.unrecorded
  pushFrame c f _ onward := onward.trans (World.extends_pushFrame _ c f)
  popFrame c onward := onward.trans (World.extends_popFrame _ c)
  updateLoaders c f onward := onward.trans (World.extends_updateLoaders _ c f)
  markFinalized o onward := onward.trans (.markFinalized _ o)
  insertClass c k _ onward := onward.trans (World.extends_insertClass _ c k)
  eraseClass c _ onward := onward.trans (.updateContext _ c _ (.of_same rfl rfl rfl rfl rfl rfl))
  recordModule c m onward := onward.trans (World.extends_recordModule _ c m)
  setImporting s isImporting onward := onward.trans (World.extends_setImporting _ s isImporting)
  conclude s source m onward := onward.trans (.conclude _ s source m)
  enlist sink _ onward := onward.trans (World.extends_enlist _ _ sink)

theorem Course.adds_onward {w w' : Recorded σ} (course : Course making w w') {u : Recorded σ}
    (onward : u.Extends w) : w.Adds (u.unrecorded.Extends ·.world) w' :=
  (course.throughout (World.extends_invariant u.unrecorded) onward.unrecorded).2

end ScriptHost
