import ScriptHost.Proofs.Embedder.Occasions
import ScriptHost.Proofs.Modules.Publication
import ScriptHost.Proofs.Registry.Refusal

set_option autoImplicit false

namespace ScriptHost

open Run

variable {σ τ : Type} {c : ContextId}

namespace Connection

variable {α : Type}

theorem reading_silent (s : StoreId) (action : StoreAction) (f : Database → Except StoreError α) :
    (reading s action f : Run τ (Except StoreError α)).IsSilent := by
  refine .bind (fun _ => rfl) fun w => ?_
  dsimp only
  split <;> exact fun _ => rfl

theorem changing_silent (s : StoreId) (action : StoreAction)
    (f : Store → Database → Except StoreError (α × Database)) :
    (changing s action f : Run τ (Except StoreError α)).IsSilent := by
  intro w
  unfold changing
  rw [bind_apply, get_apply]
  dsimp only
  cases obstacle? w (w.stores.get s) action with
  | some e => rfl
  | none =>
    dsimp only
    split
    next => rfl
    next => cases f (w.stores.get s) (w.databases.get (w.stores.get s).database) <;> rfl

end Connection

namespace Modules

variable {h : Host (Ledger σ)} (nests : h.Nests)
include nests

theorem fetchCached_bodiless (cache : ModuleCache) (source : Source) :
    (fetchCached h cache source).IsBodiless c := by
  unfold fetchCached
  dsimp only
  split
  next s =>
    have silent := Connection.reading_silent (τ := Ledger σ) s .query
      fun d => d.fetch source.name (Sha256.digest source.code)
    refine .bind (.of_silent (Connection.reading_follows s _ _) fun w => ?_) fun result => ?_
    · exact congrArg Ledger.journal (silent w)
    · split <;> exact .pure _
  next k =>
    refine .bind (.answer nests (.fetchCached k source.name _) rfl) fun result => ?_
    split <;> exact .pure _

theorem saveCached_bodiless (cache : ModuleCache) (source : Source) (payload : Bytes) :
    (saveCached h cache source payload).IsBodiless c := by
  unfold saveCached
  dsimp only
  split
  next s =>
    have silent := Connection.changing_silent (τ := Ledger σ) s .save fun store d => do
      return ((), ← d.save store.now source.name (Sha256.digest source.code) payload)
    exact .bind (.of_silent (Connection.changing_follows s _ _) fun w =>
      congrArg Ledger.journal (silent w)) fun _ => .pure _
  next k =>
    exact .bind (.answer nests (.saveCached k source.name _ payload) rfl) fun _ => .pure _

theorem loadPrecompiled_bodiless (s : Scope) (source : Source) :
    (loadPrecompiled h s c source).IsBodiless c := by
  unfold loadPrecompiled
  split
  next compiler cache _ =>
    refine .bind (fetchCached_bodiless nests cache source) fun payload => ?_
    split
    next payload =>
      refine .bind (.answer nests (.undump compiler.callback c source payload) rfl)
        fun result => ?_
      split <;> exact .pure _
    next => exact .pure _
  next => exact .pure _

theorem storePrecompiled_bodiless (s : Scope) (source : Source) (m : ModuleId) :
    (storePrecompiled h s source m).IsBodiless c := by
  unfold storePrecompiled
  split
  next compiler cache _ =>
    refine .bind (.answer nests (.dump compiler.callback m) rfl) fun result => ?_
    split
    next payload => exact saveCached_bodiless nests cache source payload
    next => exact .pure _
  next => exact .pure _

theorem loadOrCompile_bodiless (s : Scope) (source : Source) :
    (loadOrCompile h s c source).IsBodiless c := by
  refine .bind (loadPrecompiled_bodiless nests s source) fun result => ?_
  split
  next => exact .pure _
  next => exact .pure _
  next =>
    split
    next compiler _ =>
      refine .bind (.answer nests (.compile compiler.callback c source) rfl)
        fun result => ?_
      split
      next => exact .pure _
      next m => exact .bind (storePrecompiled_bodiless nests s source m) fun _ => .pure _
    next => exact .pure _

omit nests in
theorem concludeLoad_embedder {τ : Type} (s : ScopeId) (source : Source)
    (loaded : Except Signal (Except ImportError ModuleId) × World τ) :
    (concludeLoad s source loaded).2.embedder = loaded.2.embedder := by
  obtain ⟨signal | f | m, v⟩ := loaded
  · rfl
  · rfl
  · exact v.conclude_embedder s source m

theorem importInScope_bodiless {w : Recorded σ} (ready : w.Ready [c] (some c)) (source : Source) :
    (importInScope h (w.context c).scope c source).LacksBody c w := by
  refine .of_course ready (importInScope_course nests.follows c ready source).1 ?_
  obtain ⟨-, waits⟩ | ⟨-, -, m, -, known⟩ | ⟨-, -, loading⟩ :=
    importInScope_cases h w (w.context c).scope c source
  · simp [waits, World.direct_of_same]
  · simp [known, World.direct_of_same]
  · have locked : (w.setImporting (w.context c).scope true).Ready [c] (some c) :=
      ready.later (ready.sound.setImporting _ true) (w.extends_setImporting _ true) rfl
    have loads := loadOrCompile_bodiless nests (w.scopes.get (w.context c).scope) source _ locked
    have ended := concludeLoad_embedder (w.context c).scope source (loadOrCompile h
      (w.scopes.get (w.context c).scope) c source (w.setImporting (w.context c).scope true))
    rw [loading]
    exact (World.direct_congr rfl (congrArg Ledger.journal ended)) ▸ loads.bodiless

theorem importSource_bodiless (source : Source) : (importSource h c source).IsBodiless c := by
  intro w ready
  refine .congr (bind_ok (context_apply w c)) ?_
  cases if source.name.isEmpty then none else (w.context c).modules.get? source.name with
  | some m => exact .pure ready _
  | none =>
    refine .bind (importInScope_bodiless nests ready source) fun result v imported later => ?_
    cases result with
    | error => exact .pure later _
    | ok m =>
      have may := ((importInScope_course nests.follows c ready source).2 m
        (congrArg Prod.fst imported)).1
      rw [show (importInScope h (w.context c).scope c source w).2 = v from
        congrArg Prod.snd imported] at may
      exact .bind ((register_heeds nests later may).lacksBody later) fun _ _ _ ended => .pure ended _

end Modules

namespace Include

variable {h : Host (Ledger σ)} (nests : h.Nests)
include nests

theorem failed_bodiless (kind : IncludeKind) (path : Bytes) (trace : Trace) :
    (failed h c kind path trace).IsBodiless c := by
  have raised (severity : Severity) (text : Bytes) :
      (Diagnostics.raiseText h c severity trace text).IsBodiless c := fun w ready =>
    (Diagnostics.raiseText_heedful nests severity trace text w ready).lacksBody ready
  refine .bind (.of_silent (context_follows c) fun _ => rfl) fun x => ?_
  dsimp only
  split
  next => exact .bind (raised .error _) fun _ => .pure _
  next => exact .bind (raised .warning _) fun _ => .pure _

theorem moduleOfFile_bodiless (kind : IncludeKind) (file : Bytes) (trace : Trace) :
    (moduleOfFile h c kind file trace).IsBodiless c := by
  intro w ready
  refine .congr (bind_ok (context_apply w c)) ?_
  cases (w.context c).modules.get? file with
  | some m => exact .pure ready _
  | none =>
    dsimp only
    by_cases imported : (w.scopes.get (w.context c).scope).isImporting
    · have waits := (Modules.findModule_apply w (w.context c).scope file).trans (if_pos imported)
      refine .of_silent ready ?_ ?_ <;> rw [bind_apply, waits]
      exact .still w
    refine .congr (bind_ok ((Modules.findModule_apply w _ file).trans (if_neg imported))) ?_
    cases found : (w.scopes.get (w.context c).scope).modules.get? file with
    | some m =>
      have registered := Modules.register_heeds nests ready (.inr (.inr ⟨_, found⟩))
      exact .bind (registered.lacksBody ready) fun _ _ _ later => .pure later _
    | none =>
      dsimp only
      refine .congr (bind_ok (get_apply w)) ?_
      cases w.files.read file with
      | error => exact .pure ready _
      | ok code =>
        refine Run.IsBodiless.bind (Modules.importSource_bodiless nests ⟨file, file, code⟩)
          (fun result => ?_) w ready
        cases result with
        | ok m => exact .pure _
        | error e =>
          refine .bind (fun v later => ?_) fun _ => .pure _
          exact (Diagnostics.raiseText_heedful nests _ trace _ v later).lacksBody later

end Include

/-- The modules of each scope stand under their own names. -/
def World.NamesModules (w : World τ) : Prop :=
  ∀ s name m, (w.scopes.get s).modules.get? name = some m →
    name ≠ [] ∧ (w.modules.get m).name = name

theorem World.NamesModules.later {w v : World τ} (named : w.NamesModules)
    (modules : ∀ s, (v.scopes.get s).modules = (w.scopes.get s).modules)
    (names : ∀ m, w.modules.has m → (v.modules.get m).name = (w.modules.get m).name) :
    v.NamesModules := by
  intro s name m found
  obtain ⟨some, own⟩ := named s name m (modules s ▸ found)
  have known : w.modules.has m := Decidable.byContradiction fun unknown =>
    some (own.symm.trans (congrArg Module.name (Pool.get_of_not_has _ unknown)))
  exact ⟨some, (names m known).trans own⟩

theorem World.NamesModules.conclude {w : World τ} (named : w.NamesModules) (s : ScopeId)
    (source : Source) (m : ModuleId) : (w.conclude s source m).NamesModules := by
  have kept (d : ModuleId) (some : (w.modules.get d).name ≠ []) :
      ((w.conclude s source m).modules.get d).name = (w.modules.get d).name := by
    rw [w.name_conclude, if_neg fun both => some both.2.2]
  have older {t : ScopeId} {name : Bytes} {d : ModuleId}
      (found : (w.scopes.get t).modules.get? name = some d) :
      name ≠ [] ∧ ((w.conclude s source m).modules.get d).name = name := by
    obtain ⟨some, own⟩ := named t name d found
    exact ⟨some, (kept d (own ▸ some)).trans own⟩
  intro t name d found
  by_cases own : s = t
  · subst own
    by_cases there : w.scopes.has s
    · have published := congrArg Prod.fst (w.conclude_own source m there)
      dsimp only [Scope.imports] at published
      rw [published] at found
      split at found
      next => exact older found
      next some =>
        rw [Table.get?_insert] at found
        split at found
        next same =>
          cases found
          exact ⟨same ▸ by simpa using some, same.symm⟩
        next => exact older found
    · obtain ⟨internalName, minted, same⟩ := w.conclude_eq s source m
      have unknown : ¬ (w.conclude s source m).scopes.has s := by
        rw [same]
        exact fun known => there ((w.scopes.has_modify s s _).symm.trans known)
      rw [Pool.get_of_not_has _ unknown] at found
      cases found
  · rw [w.conclude_apart source m own] at found
    exact older found

theorem World.namesModules_invariant : World.IsInvariant (World.NamesModules (τ := σ)) where
  change {_ w _} step named :=
    World.NamesModules.later (w := w.unrecorded) named (fun s => congrArg Prod.fst (step.imports s))
      fun _ known => (step.keeps_modules known).2
  pushFrame _ _ _ named := named
  popFrame {w} c named := by
    unfold World.popFrame
    split <;> exact named
  updateLoaders _ _ named := named
  markFinalized _ named := named
  insertClass _ _ _ named := named
  eraseClass _ _ named := named
  recordModule _ _ named := named
  setImporting {w} s isImporting named := named.later
    (fun t => w.scopes.modify_keeps s t _ Scope.modules fun _ => rfl) fun _ _ => rfl
  conclude s source m named := named.conclude s source m
  enlist _ _ named := named

section Naming

variable {making : List ContextId} {h : Host (Ledger σ)} (follows : h.Follows) {w v : Recorded σ}
  (ready : w.Ready making (some c)) (names : w.NamesModules)
include follows ready names

theorem Modules.importInScope_names {source : Source} {m : ModuleId} (named : source.name ≠ [])
    (imported : importInScope h (w.context c).scope c source w = (.ok (.ok m), v)) :
    (v.modules.get m).name = source.name ∨ ∃ e ∈ v.embedder.journal,
      e.event.loaded = some (c, source, m) ∧
      (e.world.modules.has m → (v.modules.get m).name ≠ []) := by
  obtain ⟨-, waits⟩ | ⟨-, -, d, found, known⟩ | ⟨-, -, loading⟩ :=
    importInScope_cases h w (w.context c).scope c source
  · cases waits.symm.trans imported
  · cases known.symm.trans imported
    exact .inl (names _ _ _ found).2
  · have locked : (w.setImporting (w.context c).scope true).Ready making (some c) :=
      ready.later (ready.sound.setImporting _ true) (w.extends_setImporting _ true) rfl
    have loads := loadOrCompile_loads follows locked (w.scopes.get (w.context c).scope) c source
    rw [loading] at imported
    generalize loadOrCompile h (w.scopes.get (w.context c).scope) c source
      (w.setImporting (w.context c).scope true) = loaded at loads imported
    obtain ⟨outcome, u⟩ := loaded
    dsimp only at loads
    cases loads with
    | nothing course fruitless =>
      rcases outcome with signal | f | d
      · cases imported
      · cases imported
      · exact absurd rfl (fruitless d)
    | @kept u₀ _ before event d loaded after =>
      cases imported
      refine .inr ⟨⟨event, u₀.embedder.running, u₀.unrecorded⟩, ?_, loaded, fun there => ?_⟩
      · show _ ∈ (u.conclude _ source m).embedder.journal
        rw [u.conclude_embedder]
        exact after.journal.subset (List.mem_append_right _ List.mem_cons_self)
      · show ((u.conclude _ source m).modules.get m).name ≠ []
        rw [u.name_conclude]
        split
        next => exact named
        next other => exact fun none => other ⟨rfl, (after.extends.modules m there).1, none⟩
    | lost => cases imported

end Naming

end ScriptHost
