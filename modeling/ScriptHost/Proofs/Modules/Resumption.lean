import ScriptHost.Proofs.Modules.Conflicts
import ScriptHost.Proofs.Modules.Once

set_option autoImplicit false

namespace ScriptHost

open Run

variable {σ τ : Type} {c : ContextId} {h h' : Host τ} {m : ModuleId} {signal : Signal}

def Host.Rehandles (h h' : Host τ) : Prop :=
  ∃ handleError reportError filterOutput,
    h' = { h with handleError, reportError, filterOutput }

structure World.FindsAs (w v : World τ) (c : ContextId) : Prop where
  names : w.names c = v.names c
  own : (w.context c).catalogue = (v.context c).catalogue
  shared : (w.scopeOf c).catalogue = (v.scopeOf c).catalogue

namespace World

variable {w u v : World τ}

theorem IsUsable.rehandled (usable : w.IsUsable h c) (rehandles : h.Rehandles h') :
    w.IsUsable h' c := by
  obtain ⟨_, _, _, rfl⟩ := rehandles
  refine ⟨usable.there, usable.housed, usable.names, fun q k shared => ?_⟩
  obtain ⟨isStatic, calm⟩ := usable.classes q k shared
  exact ⟨isStatic, calm⟩

theorem catalogue_recordModule (there : w.contexts.has c) (m : ModuleId) :
    ((w.recordModule c m).context c).catalogue =
      (if (w.modules.get m).name.isEmpty then (w.context c).modules
        else (w.context c).modules.insert (w.modules.get m).name m,
      (w.context c).moduleIndex.insert (w.modules.get m).internalName m) := by
  rw [recordModule, context_updateContext, if_pos ⟨rfl, there⟩]
  rfl

theorem FindsAs.recordModule (finds : w.FindsAs v c) (there : w.contexts.has c)
    (there' : v.contexts.has c) (same : w.modules.get m = v.modules.get m) :
    (w.recordModule c m).FindsAs (v.recordModule c m) c where
  names := by rw [names_recordModule, names_recordModule, finds.names]
  own := by
    obtain ⟨modules, index⟩ := Prod.mk.inj finds.own
    rw [catalogue_recordModule there, catalogue_recordModule there', same, modules, index]
  shared := by
    have kept (x : World τ) : (x.recordModule c m).scopeOf c = x.scopeOf c :=
      x.scopeOf_updateContext c c _ fun _ => rfl
    rw [kept, kept, finds.shared]

end World

namespace Modules

theorem register_breaks {w u : World τ} (spares : h.SparesRegistries c) (usable : w.IsUsable h c)
    (declarable : ∀ e ∈ w.entities m, e.IsDeclarable h c w)
    (interrupted : register h c m w = (.error signal, u)) :
    ∃ before after, w.declared m = before ++ after ∧
      w.Reaches u c ((w.names c).settleAll w before) := by
  obtain ⟨-, ⟨before, after, parts, reaches, -⟩, -⟩ := declare_settles spares usable declarable
  rw [register_apply, bind_apply] at interrupted
  rcases result : Entity.takeAll h c (w.entities m) w with ⟨_ | _, x⟩ <;>
    rw [result] at interrupted reaches
  case ok => cases interrupted
  obtain rfl : x = u := congrArg Prod.snd interrupted
  exact ⟨before, after, parts, reaches⟩

theorem register_resumes {w v : World τ} (spares : h.SparesRegistries c)
    (returns : h.ReturnsFromHandlers c) (usable : w.IsUsable h c) (known : w.modules.has m)
    (declarable : ∀ e ∈ w.entities m, e.IsDeclarable h c w) {before after : List Entity}
    (parts : w.declared m = before ++ after)
    (reaches : w.Reaches v c ((w.names c).settleAll w before)) :
    ∃ v' w', register h c m v = (.ok (), v') ∧ register h c m w = (.ok (), w') ∧
      v'.FindsAs w' c ∧ v'.IsUsable h c ∧ w'.IsUsable h c := by
  have each : ∀ e ∈ w.declared m, e.isKnown w ∧ e.IsPlain w ∧ e.IsReady h c w := fun e member =>
    have there := declarable e (World.mem_declared.1 member).1
    ⟨there.known, there.plain, (World.mem_declared.1 member).2, there.calm⟩
  have first : ∀ e ∈ before, e.isKnown w ∧ e.IsPlain w ∧ e.IsReady h c w := fun e member =>
    each e (parts ▸ List.mem_append_left _ member)
  have usable' : v.IsUsable h c :=
    usable.settledAll (fun e member => ⟨(first e member).1, (first e member).2.2⟩) reaches
  have same := (reaches.modules m known).2
  have entities : v.entities m = w.entities m := entities_congr same
  have declarable' : ∀ e ∈ v.entities m, e.IsDeclarable h c v := fun e member =>
    have there := declarable e (entities ▸ member)
    there.later (reaches.entities e there.known)
  obtain ⟨s, resumed, -, late⟩ := register_settles spares returns usable' declarable'
  obtain ⟨t, whole, -, straight⟩ := register_settles spares returns usable declarable
  have profiles : ∀ e : Entity, e.isKnown w → e.profile v = e.profile w := fun e there =>
    (reaches.entities e there).2
  have declared : v.declared m = w.declared m :=
    declared_congr same fun e member => profiles e (declarable e member).known
  -- settling all again after a part of them leads where settling all leads
  have settled : (v.names c).settleAll v (v.declared m) =
      (w.names c).settleAll w (w.declared m) := by
    have sound := usable.names.settleAll fun e member => (first e member).1
    rw [declared, reaches.names, Naming.settleAll_congr sound profiles fun e member =>
      (each e member).1, parts, usable.names.settleAll_resume (fun e member => (first e member).1)
      fun e member => (first e member).2.1]
  have alike : s.FindsAs t c := ⟨(late.names.trans settled).trans straight.names.symm,
    (late.own.trans reaches.own).trans straight.own.symm,
    (late.shared.trans reaches.shared).trans straight.shared.symm⟩
  have module := (late.modules m (reaches.modules m known).1).2.trans same
  exact ⟨_, _, resumed, whole, alike.recordModule (late.there usable'.there)
      (straight.there usable.there) (module.trans (straight.modules m known).2.symm),
    usable'.registered declarable' late, usable.registered declarable straight⟩

theorem importInScope_rehandled (rehandles : h.Rehandles h') (s : ScopeId) (c : ContextId)
    (source : Source) : importInScope h' s c source = importInScope h s c source := by
  obtain ⟨_, _, _, rfl⟩ := rehandles
  rfl

theorem importInScope_publishes {w w' : World τ} {s : ScopeId} {source : Source}
    (imported : importInScope h s c source w = (.ok (.ok m), w')) (there : w'.scopes.has s)
    (named : source.name ≠ []) (own : (w'.modules.get m).name = source.name) :
    (w'.scopes.get s).modules.get? source.name = some m ∧
      (w'.scopes.get s).isImporting = false := by
  obtain ⟨-, waits⟩ | ⟨free, -, d, found, known⟩ | ⟨-, -, loading⟩ :=
    importInScope_cases h w s c source
  · cases waits.symm.trans imported
  · cases known.symm.trans imported
    exact ⟨found, free⟩
  · rw [loading] at imported
    rcases loaded : loadOrCompile h (w.scopes.get s) c source (w.setImporting s true) with
      ⟨signal | f | d, v⟩ <;> rw [loaded] at imported
    · cases imported
    · cases imported
    · obtain ⟨rfl, rfl⟩ : d = m ∧ (v.conclude s source d).setImporting s false = w' := by
        cases imported
        exact ⟨rfl, rfl⟩
      -- the module has the name of its source, so it is published under it when the load is
      -- concluded
      have known : (v.conclude s source d).scopes.has s := (Pool.has_modify ..).symm.trans there
      have known' : v.scopes.has s := by
        obtain ⟨_, _, same⟩ := v.conclude_eq s source d
        rw [same] at known
        exact (Pool.has_modify ..).symm.trans known
      have name : ((v.conclude s source d).modules.get d).name = source.name := own
      have published := (v.conclude s source d).setImporting_own false known
      have entered := congrArg Prod.fst (v.conclude_own source d known')
      rw [name, if_neg (by simpa using named)] at entered
      refine ⟨?_, congrArg Prod.snd published⟩
      rw [show (((v.conclude s source d).setImporting s false).scopes.get s).modules = _ from
        congrArg Prod.fst published,
        show ((v.conclude s source d).scopes.get s).modules = _ from entered]
      exact (Table.get?_insert ..).trans (if_pos rfl)

end Modules

namespace Include

variable {w v : World τ} {kind : IncludeKind} {path file code : Bytes} {trace : Trace}
  (missing : ¬ w.HasImported c file)
include missing

theorem moduleOfFile_unwinds (named : file ≠ [])
    (readable : (w.scopeOf c).modules.get? file = none → w.files.read file = .ok code)
    (ended : Modules.importSource h c ⟨file, file, code⟩ w = (.error signal, v)) :
    moduleOfFile h c kind file trace w = (.error signal, v) := by
  rw [moduleOfFile, bind_ok (context_apply w c)]
  simp only [World.get?_of_not_hasImported missing]
  cases free : (w.scopes.get (w.context c).scope).isImporting with
  | true =>
    rw [Modules.importSource_missing missing, bind_apply,
      Modules.importInScope_waits h c _ free] at ended
    cases ended
    rw [bind_apply, Modules.findModule_apply, if_pos free]
  | false =>
    rw [bind_ok ((Modules.findModule_apply w _ file).trans (if_neg (by simp [free])))]
    cases found : (w.scopes.get (w.context c).scope).modules.get? file with
    | some m =>
      rw [Modules.importSource_missing missing,
        bind_ok (Modules.importInScope_known h c free named found)] at ended
      dsimp only at ended ⊢
      rw [bind_apply] at ended ⊢
      rcases registered : Modules.register h c m w with ⟨_ | _, u⟩ <;> rw [registered] at ended
      · cases ended
        rfl
      · cases ended
    | none =>
      dsimp only
      rw [bind_ok (get_apply w), readable found]
      dsimp only
      rw [bind_apply, ended]

theorem run_unwinds (found : findFile w.files (w.context c).searchPath.directories path = some file)
    (table : Option TableId) (ended : moduleOfFile h c kind file trace w = (.error signal, v)) :
    run h c kind path table trace w = (.error signal, v) := by
  have sought : find c path w = (.ok (some file), w) := by rw [← found]; rfl
  have passes : (kind.isOnce && (w.context c).modules.contains file) = false := by
    rw [Bool.and_eq_false_iff]
    exact .inr (Bool.eq_false_iff.2 missing)
  rw [run, bind_ok sought]
  dsimp only
  rw [bind_ok (context_apply w c), passes]
  simp only [Bool.false_eq_true, if_false]
  rw [bind_apply, ended]

end Include

namespace Modules

/-- A source has been loaded, and its registration is interrupted, by whatever is done about a
warning. The import ends so, or the include that it is part of, and the module does not count as
imported. Then another import succeeds with an embedder that goes on after warnings, however far the
first one has come and whatever has been done in between that touches no registry: it compiles
nothing, it registers the module that the scope has, and names and modules are found as they are
after an undisturbed import. -/
theorem importSource_resumes {h h' : Host (Ledger σ)} (follows : h.Follows)
    (rehandles : h.Rehandles h') (spares : h.SparesRegistries c) (spares' : h'.SparesRegistries c)
    (returns : h'.ReturnsFromHandlers c) {w w₀ w₁ : Recorded σ} (sound : w.Sound)
    (scopes : w.HasStaticScopes) (there : w.contexts.has c) {source : Source}
    (named : source.name ≠ [])
    (loaded : importInScope h (w.context c).scope c source w = (.ok (.ok m), w₀))
    (own : (w₀.modules.get m).name = source.name) (missing : ¬ w₀.HasImported c source.name)
    (hooks : w₀.HasCalmHooks h c)
    (plain : ∀ e ∈ w₀.entities m, (e.profile w₀).name.head? ≠ some 0x5c ∧
      (e.profile w₀).onEnter = none)
    (interrupted : register h c m w₀ = (.error signal, w₁)) :
    importSource h c source w = (.error signal, w₁) ∧
    (∀ kind path table trace,
      Include.findFile w.files (w.context c).searchPath.directories path = some source.name →
      source.path = source.name →
      ((w.scopeOf c).modules.get? source.name = none →
        w.files.read source.name = .ok source.code) →
      Include.run h c kind path table trace w = (.error signal, w₁)) ∧
    ¬ w₁.HasImported c source.name ∧
    ∀ v, w₁.Upholds v c → ∃ v' w', importSource h' c source v = (.ok (.ok m), v') ∧
      importSource h' c source v =
        (do register h' c m; return .ok m : Run _ (Except ImportError ModuleId)) v ∧
      importSource h' c source w = (.ok (.ok m), w') ∧ v'.FindsAs w' c ∧
      ∀ q : Lookup, (q.find h' c v').1 = (q.find h' c w').1 := by
  have course := (importInScope_course follows c (sound.readyFor there) source).1
  rw [loaded] at course
  have sound₀ : w₀.Sound := course.sound sound
  have there₀ : w₀.contexts.has c := (course.extends.contexts c there).1
  have scope₀ : (w₀.context c).scope = (w.context c).scope := (course.extends.contexts c there).2.1
  have known : w₀.modules.has m := by
    refine Decidable.by_contra fun unknown => named ?_
    rw [← own, Pool.get_of_not_has _ unknown]
    rfl
  have usable := sound₀.usable (course.staticScopes sound scopes).1 there₀ hooks
  have declarable (h : Host (Ledger σ)) : ∀ e ∈ w₀.entities m, e.IsDeclarable h c w₀ :=
    fun e member => ⟨sound₀.knows_entities member, (plain e member).1, fun hook own => by
      rw [(plain e member).2] at own
      cases own⟩
  obtain ⟨before, after, parts, reaches⟩ := register_breaks spares usable (declarable h) interrupted
  -- the module is in the scope since the first load, but not in the context
  have early : ¬ w.HasImported c source.name := fun imported =>
    missing (imported.later course.extends)
  have ended : importSource h c source w = (.error signal, w₁) := by
    rw [importSource_missing early, bind_ok loaded]
    dsimp only
    rw [bind_apply, interrupted]
  refine ⟨ended, fun kind path table trace found file readable => ?_, ?_, fun v between => ?_⟩
  · obtain ⟨name, _, code⟩ := source
    cases file
    exact Include.run_unwinds early found table
      (Include.moduleOfFile_unwinds early named readable ended)
  · rwa [World.HasImported, reaches.modules_eq]
  have reached := reaches.trans between
  obtain ⟨v', w', resumed, whole, alike, usable', usable''⟩ := register_resumes spares' returns
    (usable.rehandled rehandles) known (declarable h') parts reached
  have late : ¬ v.HasImported c source.name := by rwa [World.HasImported, reached.modules_eq]
  obtain ⟨found, free⟩ := importInScope_publishes loaded (scope₀ ▸ sound₀.housed c there₀) named own
  have shared : (v.scopes.get (v.context c).scope).catalogue =
      (w₀.scopes.get (w.context c).scope).catalogue :=
    reached.shared.trans (congrArg (fun s => (w₀.scopes.get s).catalogue) scope₀)
  obtain ⟨modules, rest⟩ := Prod.mk.inj shared
  -- the scope has the module by now, so the second import loads nothing
  have hit : importInScope h' (v.context c).scope c source v = (.ok (.ok m), v) :=
    importInScope_known h' c ((Prod.mk.inj rest).2.trans free) named (modules ▸ found)
  have again : importSource h' c source v =
      (do register h' c m; return .ok m : Run _ (Except ImportError ModuleId)) v := by
    rw [importSource_missing late, bind_ok hit]
  refine ⟨v', w', again.trans (bind_ok resumed), again, ?_, alike, fun q => ?_⟩
  · rw [importSource_missing early, importInScope_rehandled rehandles, bind_ok loaded]
    exact bind_ok whole
  · rw [Lookup.find_answers usable', Lookup.find_answers usable'', alike.names]

end Modules

theorem World.upholds_note (w : Recorded σ) (event : Event) (c : ContextId) :
    w.Upholds (w.note event) c :=
  ⟨⟨fun _ known => ⟨known, rfl⟩, fun _ known => ⟨known, rfl⟩, id, rfl, id, rfl, rfl⟩, rfl⟩

theorem Call.recorded_spares (call : Call) (outcome : Except Signal call.Answer) (c : ContextId) :
    (call.recorded fun w => (outcome, w) : Run (Ledger σ) call.Answer).Spares c := fun w =>
  (w.upholds_note (.called call) c).trans ((w.note (.called call)).upholds_note _ c)

def strict : Script Unit where
  patience := 1
  code
    | .compile .. => .ask (.newModule { (default : Module) with
        classes := [⟨1⟩, ⟨2⟩], constants := [⟨0⟩] }) fun outcome => .done (outcome.map .ok)
    | .handleError .. => .done (.error (.value .null))
    | .enterClass .. => .done (.ok none)
    | .filterOutput _ _ chunk _ => .done (.ok chunk)
    | .reportError .. => .done (.ok ())
    | _ => .done (.error .exhausted)

def awaiting : Recorded Unit :=
  ((Code.each () (compilingContext ++ [newPlainClass "foo", newPlainClass "Foo",
      newPlainClass "bar", .newConstant ⟨"baz", .null, false, {}⟩, .act ⟨0⟩ (.registerClass ⟨0⟩),
      .act ⟨0⟩ (.setDiagnostics (·.setErrorHandler (some ⟨⟨0⟩, .silent, true⟩)))]) :
    Code Unit Unit).run (strict.host 1) (.start (FileTree.make "/") ())).2

def lenient : Host (Ledger Unit) :=
  { strict.host 1 with handleError := fun _ _ _ => return true }

def awaited : Except Signal (Except ImportError ModuleId) × Recorded Unit :=
  Modules.importInScope (strict.host 1) (awaiting.context ⟨0⟩).scope ⟨0⟩ ⟨"m", [], []⟩ awaiting

theorem importSource_resumes_awaiting :
    ∃ w₁ v' w', (∃ signal, Modules.importSource (strict.host 1) ⟨0⟩ ⟨"m", [], []⟩ awaiting =
      (.error signal, w₁)) ∧ ¬ w₁.HasImported ⟨0⟩ "m" ∧
      Modules.importSource lenient ⟨0⟩ ⟨"m", [], []⟩ w₁ = (.ok (.ok ⟨0⟩), v') ∧
      Modules.importSource lenient ⟨0⟩ ⟨"m", [], []⟩ awaiting = (.ok (.ok ⟨0⟩), w') ∧
      v'.FindsAs w' ⟨0⟩ := by
  obtain ⟨compiled, name, missing, plain, broken⟩ :
      awaited.1.toOption.bind Except.toOption = some ⟨0⟩ ∧
      (awaited.2.modules.get ⟨0⟩).name = "m" ∧ ¬ awaited.2.HasImported ⟨0⟩ "m" ∧
      (∀ e ∈ awaited.2.entities ⟨0⟩, (e.profile awaited.2).name.head? ≠ some 0x5c ∧
        (e.profile awaited.2).onEnter = none) ∧
      (Modules.register (strict.host 1) ⟨0⟩ ⟨0⟩ awaited.2).1.toOption = none := by
    decide +kernel
  obtain ⟨result, returned, same⟩ := Option.bind_eq_some_iff.1 compiled
  obtain rfl := eq_ok_of_toOption same
  have loaded : Modules.importInScope (strict.host 1) (awaiting.context ⟨0⟩).scope ⟨0⟩
      ⟨"m", [], []⟩ awaiting = (.ok (.ok ⟨0⟩), awaited.2) := eq_ok_pair_of_toOption returned
  obtain ⟨signal, ended⟩ := eq_error_pair_of_toOption broken
  have sound : awaiting.Sound := (strict.course 1 _ _ ()).sound (World.start_sound _ ())
  have scopes : awaiting.HasStaticScopes := (strict.staticScopes 1 _ _ ()).1
  have spares : (strict.host 1).SparesRegistries ⟨0⟩ := ⟨fun _ _ => Call.recorded_spares _ _ _,
    fun _ _ => Call.recorded_spares _ _ _, fun _ _ _ => Call.recorded_spares _ _ _⟩
  have spares' : lenient.SparesRegistries ⟨0⟩ :=
    ⟨fun _ _ w => .refl w _, spares.reportError, spares.filterOutput⟩
  have returns : lenient.ReturnsFromHandlers ⟨0⟩ :=
    ⟨fun _ _ _ => ⟨_, _, rfl⟩, fun _ _ _ => ⟨_, _, rfl⟩, fun _ _ _ _ => ⟨_, _, rfl⟩⟩
  have hooks : awaited.2.HasCalmHooks (strict.host 1) ⟨0⟩ := fun _ _ hook _ _ w =>
    ⟨_, rfl, Call.recorded_spares (.enterClass hook ⟨0⟩) (.ok none) ⟨0⟩ w⟩
  have there : awaiting.contexts.has ⟨0⟩ := by decide +kernel
  obtain ⟨interrupted, -, unloaded, resumes⟩ := Modules.importSource_resumes
    (strict.host_follows 1) ⟨_, _, _, rfl⟩ spares spares' returns sound scopes there
    (by decide) loaded name missing hooks plain ended
  obtain ⟨v', w', resumed, -, whole, alike, -⟩ := resumes _ (.refl _ _)
  exact ⟨_, v', w', ⟨signal, interrupted⟩, unloaded, resumed, whole, alike⟩

end ScriptHost
