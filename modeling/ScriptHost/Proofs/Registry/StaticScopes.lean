import ScriptHost.Proofs.Embedder.Invariants
import ScriptHost.Proofs.Embedder.Requests

set_option autoImplicit false

namespace ScriptHost

variable {σ τ : Type} {making : List ContextId}

def Scope.IsStatic (s : Scope) (w : World τ) : Prop :=
  ∀ key k, s.classes.get? key = some k → (w.classes.get k).isStatic

namespace Scope.IsStatic

variable {s : Scope} {w : World τ}

theorem enter (isStatic : s.IsStatic w) {k : ClassId} (own : (w.classes.get k).isStatic) :
    Scope.IsStatic { s with classes := (Scope.enter s.classes (w.classes.get k).lowerName k).2 } w := by
  unfold Scope.enter
  split
  next => exact isStatic
  next =>
    intro key b found
    rw [Table.get?_insert] at found
    split at found
    next =>
      cases found
      exact own
    next => exact isStatic key b found

theorem enterAll (items : List ClassId) (own : ∀ k ∈ items, (w.classes.get k).isStatic)
    (isStatic : s.IsStatic w) : Scope.IsStatic
      { s with
        classes := items.foldl (fun t k => (Scope.enter t (w.classes.get k).lowerName k).2)
          s.classes } w := by
  induction items generalizing s with
  | nil => exact isStatic
  | cons k rest ih =>
    obtain ⟨first, others⟩ := List.forall_mem_cons.1 own
    exact ih others (isStatic.enter first)

theorem publishIn (isStatic : s.IsStatic w) (m : ModuleId) :
    (Modules.publishIn w m s).IsStatic w :=
  isStatic.enterAll ((w.modules.get m).classes.filter fun k => (w.classes.get k).isStatic)
    fun _ member => (List.mem_filter.1 member).2

end Scope.IsStatic

namespace World

variable {w w' : World τ}

def HasStaticScopes (w : World τ) : Prop := ∀ s, (w.scopes.get s).IsStatic w

namespace HasStaticScopes

theorem scopeOf (scopes : w.HasStaticScopes) (c : ContextId) : (w.scopeOf c).IsStatic w :=
  scopes _

theorem of_same (scopes : w.HasStaticScopes) (same : w'.scopes = w.scopes)
    (classes : w'.classes = w.classes) : w'.HasStaticScopes := by
  intro s key k found
  rw [same] at found
  rw [classes]
  exact scopes s key k found

theorem later (scopes : w.HasStaticScopes) (sound : w.Sound) (same : w'.scopes = w.scopes)
    (classes : ∀ k, w.classes.has k → (w.classes.get k).isStatic → (w'.classes.get k).isStatic) :
    w'.HasStaticScopes := by
  intro s key k found
  rw [same] at found
  exact classes k ((sound.scopes s).classes key k found).1 (scopes s key k found)

theorem updateScope (scopes : w.HasStaticScopes) (s : ScopeId) (f : Scope → Scope)
    (keeps : ∀ x : Scope, x.IsStatic w → (f x).IsStatic w) : (w.updateScope s f).HasStaticScopes := by
  intro t
  show ((w.scopes.modify s f).get t).IsStatic w
  rw [Pool.get_modify]
  split
  next => exact keeps _ (scopes t)
  next => exact scopes t

theorem setImporting (scopes : w.HasStaticScopes) (s : ScopeId) (isImporting : Bool) :
    (w.setImporting s isImporting).HasStaticScopes :=
  scopes.updateScope s _ fun _ => id

theorem conclude (scopes : w.HasStaticScopes) (s : ScopeId) (source : Source) (m : ModuleId) :
    (w.conclude s source m).HasStaticScopes := by
  obtain ⟨internalName, minted, same⟩ := w.conclude_eq s source m
  have named : (w.nameModule m source.name internalName minted).HasStaticScopes :=
    scopes.of_same rfl rfl
  rw [same]
  exact named.updateScope s _ fun _ there => there.publishIn m

theorem addScope (scopes : w.HasStaticScopes) (s : Scope) :
    HasStaticScopes { w with scopes := w.scopes.add s.bare } := by
  intro t
  show ((w.scopes.add s.bare).get t).IsStatic w
  rw [Pool.get_add]
  split
  next => exact nofun
  next => exact scopes t

theorem popFrame (scopes : w.HasStaticScopes) (c : ContextId) : (w.popFrame c).HasStaticScopes := by
  unfold World.popFrame
  split
  next => exact scopes
  next => exact scopes.of_same rfl rfl

end HasStaticScopes

end World

theorem Change.staticScopes {w w' : Recorded σ} (step : Change making w w') (sound : w.Sound)
    (scopes : w.HasStaticScopes) : w'.HasStaticScopes := by
  cases step with
  | addClass k =>
    refine scopes.later sound rfl fun b known isStatic => ?_
    rwa [show _ = w.classes.get b from Pool.get_add_of_has w.classes k known]
  | addMethod k m =>
    refine scopes.later sound rfl fun b _ isStatic => ?_
    exact (w.classes.modify_keeps k b (·.addMethod m) Class.isStatic fun _ => rfl).trans isStatic
  | shareClass k s =>
    refine scopes.later sound rfl fun b _ isStatic => ?_
    show ((w.classes.modify k _).get b).isStatic
    rw [Pool.get_modify]
    split
    next => rfl
    next => exact isStatic
  | addScope s => exact scopes.addScope s
  | setDefaults s | declareFunction s | declareConstant s => exact scopes.updateScope s _ fun _ => id
  | declareClass s k known own => exact scopes.updateScope s _ fun _ there => there.enter own
  | popCall c => exact scopes.popFrame c
  | _ => exact scopes.of_same rfl rfl

theorem World.staticScopes_invariant :
    World.IsInvariant fun w : World σ => w.Sound ∧ w.HasStaticScopes where
  change := fun step ⟨sound, scopes⟩ =>
    ⟨World.sound_invariant.change step sound, step.staticScopes (.of_unrecorded sound) scopes⟩
  pushFrame := fun c _ known ⟨sound, scopes⟩ => ⟨sound.pushFrame c known, scopes⟩
  popFrame := fun c ⟨sound, scopes⟩ => ⟨sound.popFrame c, scopes.popFrame c⟩
  updateLoaders := fun c f ⟨sound, scopes⟩ => ⟨sound.updateLoaders c f, scopes⟩
  markFinalized := fun o ⟨sound, scopes⟩ => ⟨sound.markFinalized o, scopes⟩
  insertClass := fun c k known ⟨sound, scopes⟩ => ⟨sound.insertClass c k known, scopes⟩
  eraseClass := fun c lower ⟨sound, scopes⟩ => ⟨sound.eraseClass c lower, scopes⟩
  recordModule := fun c m ⟨sound, scopes⟩ => ⟨sound.recordModule c m, scopes⟩
  setImporting := fun s isImporting ⟨sound, scopes⟩ =>
    ⟨sound.setImporting s isImporting, scopes.setImporting s isImporting⟩
  conclude := fun s source m ⟨sound, scopes⟩ =>
    ⟨sound.conclude s source m, scopes.conclude s source m⟩
  enlist := fun sink known ⟨sound, scopes⟩ => ⟨sound.enlist known sink, scopes⟩

theorem Course.staticScopes {w w' : Recorded σ} (course : Course making w w') (sound : w.Sound)
    (scopes : w.HasStaticScopes) : w'.HasStaticScopes ∧ w.Adds (·.world.HasStaticScopes) w' := by
  obtain ⟨ended, within⟩ :=
    course.throughout World.staticScopes_invariant ⟨sound.unrecorded, scopes⟩
  exact ⟨ended.2, within.imp fun _ holds => holds.2⟩

theorem Script.staticScopes {ρ : Type} (s : Script σ) (depth : Nat) (code : Code σ ρ)
    (files : FileTree) (own : σ) :
    (code.run (s.host depth) (.start files own)).2.HasStaticScopes ∧
      ∀ m ∈ s.journal depth code files own, m.world.HasStaticScopes := by
  obtain ⟨ended, new, journal, each⟩ :=
    (s.course depth code files own).staticScopes (World.start_sound files own) fun _ => nofun
  exact ⟨ended, fun m member => each m (by rwa [Script.journal, journal] at member)⟩

end ScriptHost
