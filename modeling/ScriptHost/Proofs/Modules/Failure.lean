import ScriptHost.Proofs.Modules.Once
import ScriptHost.Proofs.Modules.Transparency
import ScriptHost.Proofs.Registry.Meaning

set_option autoImplicit false

namespace ScriptHost

open Run

variable {τ : Type} {α : Type} {w u v : World τ} {c : ContextId} {h : Host τ}

structure Registries where
  classes : Table ClassId
  functions : Table FunctionId
  constants : ConstantSet
  modules : Table ModuleId
  moduleIndex : Table ModuleId

def Context.registries (x : Context) : Registries :=
  ⟨x.classes, x.functions, x.constants, x.modules, x.moduleIndex⟩

structure Context.Conduct where
  scope : ScopeId
  calls : CallStack Activation
  mask : Severity
  errorHandler : Option ErrorHandler
  report : ReportHandler

def Context.conduct (x : Context) : Context.Conduct :=
  ⟨x.scope, x.calls, x.diagnostics.mask, x.diagnostics.errorHandler, x.diagnostics.report⟩

/-- A context, its scope, the caches of modules and all that has been made are as they were. There
can be more of it, and the context can have written and can have noted its last diagnostic. -/
structure World.Preserves (w v : World τ) (c : ContextId) : Prop where
  entities : ∀ e : Entity, e.isKnown w → e.isKnown v ∧ e.profile v = e.profile w
  modules : ∀ m, w.modules.has m → v.modules.has m ∧ v.modules.get m = w.modules.get m
  there : w.contexts.has c → v.contexts.has c
  housed : w.scopes.has (w.context c).scope → v.scopes.has (w.context c).scope
  registries : (v.context c).registries = (w.context c).registries
  conduct : (v.context c).conduct = (w.context c).conduct
  scope : v.scopeOf c = w.scopeOf c
  stores : v.stores = w.stores
  databases : v.databases = w.databases
  overwritten : ∀ d, v.files.overwritten? d = w.files.overwritten? d
  minted : v.minted = w.minted

namespace World.Preserves

theorem refl (w : World τ) (c : ContextId) : w.Preserves w c :=
  ⟨fun _ known => ⟨known, rfl⟩, fun _ known => ⟨known, rfl⟩, id, id, rfl, rfl, rfl, rfl, rfl,
    fun _ => rfl, rfl⟩

theorem home (kept : w.Preserves v c) : (v.context c).scope = (w.context c).scope :=
  congrArg Context.Conduct.scope kept.conduct

theorem trans (first : u.Preserves v c) (rest : v.Preserves w c) : u.Preserves w c where
  entities e known := by
    obtain ⟨known', same⟩ := first.entities e known
    exact (rest.entities e known').imp_right (·.trans same)
  modules m known := by
    obtain ⟨known', same⟩ := first.modules m known
    exact (rest.modules m known').imp_right (·.trans same)
  there := rest.there ∘ first.there
  housed housed := first.home ▸ rest.housed (first.home ▸ first.housed housed)
  registries := rest.registries.trans first.registries
  conduct := rest.conduct.trans first.conduct
  scope := rest.scope.trans first.scope
  stores := rest.stores.trans first.stores
  databases := rest.databases.trans first.databases
  overwritten d := (rest.overwritten d).trans (first.overwritten d)
  minted := rest.minted.trans first.minted

theorem updateContext (w : World τ) (c : ContextId) (f : Context → Context)
    (registries : ∀ x, (f x).registries = x.registries) (conduct : ∀ x, (f x).conduct = x.conduct) :
    w.Preserves (w.updateContext c f) c where
  entities _ known := ⟨known, rfl⟩
  modules _ known := ⟨known, rfl⟩
  there := (w.has_updateContext c c f).trans
  housed := id
  registries := w.contexts.modify_keeps c c f Context.registries registries
  conduct := w.contexts.modify_keeps c c f Context.conduct conduct
  scope := w.scopeOf_updateContext c c f fun x => congrArg Context.Conduct.scope (conduct x)
  stores := rfl
  databases := rfl
  overwritten _ := rfl
  minted := rfl

theorem unlocked (housed : w.scopes.has (w.context c).scope)
    (free : (w.scopeOf c).isImporting = false)
    (kept : (w.setImporting (w.context c).scope true).Preserves u c) :
    w.Preserves (u.setImporting (w.context c).scope false) c where
  entities := kept.entities
  modules := kept.modules
  there := kept.there
  housed housed := (Pool.has_modify ..).trans (kept.housed ((Pool.has_modify ..).trans housed))
  registries := kept.registries
  conduct := kept.conduct
  scope := by
    have home : (u.context c).scope = (w.context c).scope := kept.home
    have known := kept.housed ((Pool.has_modify ..).trans housed)
    rw [← home, setImporting, scopeOf_updateScope _ _ _ (home ▸ known), kept.scope, setImporting,
      scopeOf_updateScope _ _ _ housed]
    dsimp only
    rw [← free]
  stores := kept.stores
  databases := kept.databases
  overwritten := kept.overwritten
  minted := kept.minted

end World.Preserves

def Run.Preserves (c : ContextId) (m : Run τ α) : Prop :=
  ∀ w : World τ, w.Preserves (m w).2 c

theorem Run.isClosed_preserves (c : ContextId) :
    Run.IsClosed c fun α (m : Run τ α) => m.Preserves c where
  pure a w := .refl w c
  bind {α β m f} first rest w := by
    rw [bind_apply]
    have kept := first w
    rcases result : m w with ⟨signal | a, u⟩ <;> rw [result] at kept
    · exact kept
    · exact kept.trans (rest a u)
  context w := .refl w c
  modifyStack _ _ w := .updateContext w c _ (fun _ => rfl) fun _ => rfl
  onSink f w := ⟨fun _ known => ⟨known, rfl⟩, fun _ known => ⟨known, rfl⟩, id, id, rfl, rfl, rfl,
    rfl, rfl, fun _ => rfl, rfl⟩

structure Host.IsDiscreet (h : Host τ) (c : ContextId) : Prop where
  compile : ∀ k source, (h.compile k c source).Preserves c
  undump : ∀ k source payload, (h.undump k c source payload).Preserves c
  fetchCached : ∀ k name digest, (h.fetchCached k name digest).Preserves c
  handleError : ∀ k m, (h.handleError k c m).Preserves c
  reportError : ∀ k m, (h.reportError k c m).Preserves c
  filterOutput : ∀ k chunk mode, (h.filterOutput k c chunk mode).Preserves c

theorem Diagnostics.raiseText_preserves (discreet : h.IsDiscreet c) (severity : Severity)
    (trace : Trace) (text : Bytes) : (raiseText h c severity trace text).Preserves c :=
  raiseText_closed (isClosed_preserves c) discreet.filterOutput discreet.handleError
    discreet.reportError (fun _ w => .updateContext w c _ (fun _ => rfl) fun _ => rfl)
    (fun _ w => .refl w c) severity trace text

namespace Modules

variable {source : Source} {s : Scope} {e : ImportError}

theorem fetchCached_preserves (discreet : h.IsDiscreet c) (cache : ModuleCache) (source : Source) :
    (fetchCached h cache source).Preserves c := by
  have closed := Run.isClosed_preserves (τ := τ) c
  cases cache with
  | store d =>
    intro w
    obtain ⟨result, fetched, -⟩ := Connection.fetch_cases w d source.name
      (Sha256.digest source.code)
    rw [fetchCached, bind_ok fetched]
    cases result <;> exact .refl w c
  | external k =>
    refine closed.bind (discreet.fetchCached k source.name _) fun result => ?_
    cases result <;> exact closed.pure _

theorem loadPrecompiled_preserves (discreet : h.IsDiscreet c) (s : Scope) (source : Source) :
    (loadPrecompiled h s c source).Preserves c := by
  have closed := Run.isClosed_preserves (τ := τ) c
  unfold loadPrecompiled
  cases keeping? s source with
  | none => exact closed.pure _
  | some keeping =>
    refine closed.bind (fetchCached_preserves discreet keeping.2 source) fun found => ?_
    cases found with
    | none => exact closed.pure _
    | some payload =>
      refine closed.bind (discreet.undump keeping.1.callback source payload) fun read => ?_
      cases read <;> exact closed.pure _

variable (discreet : h.IsDiscreet c)
include discreet

theorem loadOrCompile_fails (failed : loadOrCompile h s c source w = (.ok (.error e), v)) :
    w.Preserves v c ∧ ∀ runModule dump saveCached,
      loadOrCompile { h with runModule, dump, saveCached } s c source w = (.ok (.error e), v) := by
  obtain ⟨found, u, asked, rest⟩ := of_bind_ok failed
  have first := loadPrecompiled_preserves discreet s source w
  rw [asked] at first
  -- the cache and the compiler are asked before anything that the hosts differ in
  have again (h' : Host τ) (same : loadPrecompiled h' s c source = loadPrecompiled h s c source) :
      loadPrecompiled h' s c source w = (.ok found, u) := same ▸ asked
  rcases found with f | _ | m
  · cases rest
    exact ⟨first, fun _ _ _ => bind_ok (again _ rfl)⟩
  · cases compiles : s.compiler with
    | none =>
      simp only [compiles] at rest
      cases rest
      refine ⟨first, fun _ _ _ => (bind_ok (again _ rfl)).trans ?_⟩
      simp only [compiles]
      rfl
    | some compiler =>
      simp only [compiles] at rest
      obtain ⟨result, t, compiled, last⟩ := of_bind_ok rest
      have second := discreet.compile compiler.callback source u
      rw [compiled] at second
      cases result with
      | error f =>
        cases last
        refine ⟨first.trans second, fun _ _ _ => (bind_ok (again _ rfl)).trans ?_⟩
        simp only [compiles]
        exact bind_ok compiled
      | ok m =>
        obtain ⟨_, _, _, last⟩ := of_bind_ok last
        cases last
  · cases rest

omit discreet in
theorem unshared_of_fails (named : source.name ≠ []) (unknown : ¬ w.HasImported c source.name)
    (failed : importSource h c source w = (.ok (.error e), v)) :
    (w.scopeOf c).modules.get? source.name = none := by
  rw [importSource_missing unknown] at failed
  cases found : (w.scopeOf c).modules.get? source.name with
  | none => rfl
  | some m =>
    obtain ⟨result, u, imported, last⟩ := of_bind_ok failed
    obtain ⟨-, waits⟩ | ⟨-, -, d, -, known⟩ | ⟨-, missing, -⟩ :=
      importInScope_cases h w (w.context c).scope c source
    · cases waits.symm.trans imported
    · cases known.symm.trans imported
      obtain ⟨_, _, _, last⟩ := of_bind_ok last
      cases last
    · cases (missing named).symm.trans found

theorem importInScope_fails (housed : w.scopes.has (w.context c).scope)
    (failed : importInScope h (w.context c).scope c source w = (.ok (.error e), v)) :
    w.Preserves v c ∧ ∀ runModule dump saveCached,
      importInScope { h with runModule, dump, saveCached } (w.context c).scope c source w =
        (.ok (.error e), v) := by
  obtain ⟨-, waits⟩ | ⟨-, -, d, -, known⟩ | ⟨free, missing, loading⟩ :=
    importInScope_cases h w (w.context c).scope c source
  · cases waits.symm.trans failed
  · cases known.symm.trans failed
  · rw [loading] at failed
    rcases loaded : loadOrCompile h (w.scopes.get (w.context c).scope) c source
      (w.setImporting (w.context c).scope true) with ⟨signal | f | m, t⟩ <;> rw [loaded] at failed
    · cases failed
    · cases failed
      obtain ⟨kept, alike⟩ := loadOrCompile_fails discreet loaded
      refine ⟨kept.unlocked housed free, fun runModule dump saveCached => ?_⟩
      rw [importInScope_missing { h with runModule, dump, saveCached } c free missing, alike]
      rfl
    · cases failed

theorem importSource_fails (housed : w.scopes.has (w.context c).scope)
    (failed : importSource h c source w = (.ok (.error e), v)) :
    w.Preserves v c ∧ ∀ runModule dump saveCached,
      importSource { h with runModule, dump, saveCached } c source w = (.ok (.error e), v) := by
  rw [importSource, bind_ok (context_apply w c)] at failed
  cases known : if source.name.isEmpty then none else (w.context c).modules.get? source.name with
  | some m =>
    simp only [known] at failed
    cases failed
  | none =>
    simp only [known] at failed
    obtain ⟨result, u, imported, last⟩ := of_bind_ok failed
    cases result with
    | ok m =>
      obtain ⟨_, _, _, last⟩ := of_bind_ok last
      cases last
    | error f =>
      cases last
      obtain ⟨kept, alike⟩ := importInScope_fails discreet housed imported
      refine ⟨kept, fun runModule dump saveCached => ?_⟩
      rw [importSource, bind_ok (context_apply w c)]
      simp only [known]
      exact bind_ok (alike runModule dump saveCached)

end Modules

structure Host.ReportsAs (h h' : Host τ) : Prop where
  filterOutput : h'.filterOutput = h.filterOutput
  handleError : h'.handleError = h.handleError
  reportError : h'.reportError = h.reportError

namespace Host.ReportsAs

variable {h' : Host τ} (reports : h.ReportsAs h') (c : ContextId)
include reports

theorem emit (pass : Bytes → Run τ (Nat × Option OutputError)) (b : BufferId) (mode : OutputMode) :
    Output.emit h' c pass b mode = Output.emit h c pass b mode := by
  simp only [Output.emit, Output.callHandler, reports.filterOutput]

theorem deliver : Output.deliver h' c = Output.deliver h c := by
  funext route
  induction route with
  | nil => rfl
  | cons b below ih =>
    funext text
    simp only [Output.deliver, ih, reports.emit]

theorem echoBytes : Output.echoBytes h' c = Output.echoBytes h c := by
  funext text
  simp only [Output.echoBytes, Output.write, Output.writeTo, reports.deliver]

theorem trigger (m : Message) : Diagnostics.trigger h' c m = Diagnostics.trigger h c m := by
  simp only [Diagnostics.trigger, Diagnostics.reportError, reports.echoBytes, reports.handleError,
    reports.reportError]

theorem raiseText (severity : Severity) (trace : Trace) (text : Bytes) :
    Diagnostics.raiseText h' c severity trace text =
      Diagnostics.raiseText h c severity trace text := by
  simp only [Diagnostics.raiseText, reports.trigger]

end Host.ReportsAs

/-- Comes to nothing: it ends with a certain value or unwinds, and leaves a context, its scope and
the caches as they are. No module is run, written out or kept. -/
structure Run.Lapses {α : Type} (c : ContextId) (h : Host τ) (m : Host τ → Run τ α) (a : α)
    (w : World τ) : Prop where
  ends : (m h w).1 = .ok a ∨ ∃ signal, (m h w).1 = .error signal
  preserves : w.Preserves (m h w).2 c
  idle : ∀ runModule dump saveCached, m { h with runModule, dump, saveCached } w = m h w

namespace Run.Lapses

variable {α β : Type} {a : α} {b : β}

theorem value (c : ContextId) (h : Host τ) (a : α) (w : World τ) :
    Lapses c h (fun _ => pure a) a w :=
  ⟨.inl rfl, .refl w c, fun _ _ _ => rfl⟩

theorem of_read {m : Run τ α} {f : Host τ → α → Run τ β} (read : m w = (.ok a, w))
    (rest : Lapses c h (fun h => f h a) b w) : Lapses c h (fun h => m >>= f h) b w := by
  have ended (h : Host τ) : (m >>= f h) w = f h a w := bind_ok read
  obtain ⟨ends, kept, idle⟩ := rest
  refine ⟨by rwa [ended], by rwa [ended], fun runModule dump saveCached => ?_⟩
  rw [ended, ended]
  exact idle runModule dump saveCached

theorem of_unwound {m : Run τ α} {f : Host τ → α → Run τ β} {signal : Signal}
    (unwound : m w = (.error signal, w)) : Lapses c h (fun h => m >>= f h) b w := by
  have ended (h : Host τ) : (m >>= f h) w = (.error signal, w) := by rw [bind_apply, unwound]
  exact ⟨.inr ⟨signal, by rw [ended]⟩, by rw [ended]; exact .refl w c, fun _ _ _ => by
    rw [ended, ended]⟩

theorem bind {m : Host τ → Run τ α} {f : Host τ → α → Run τ β} (first : Lapses c h m a w)
    (rest : ∀ u, Lapses c h (fun h => f h a) b u) : Lapses c h (fun h => m h >>= f h) b w := by
  obtain ⟨ends, kept, idle⟩ := first
  rcases result : m h w with ⟨signal | x, u⟩ <;> rw [result] at ends kept
  · have ended : (m h >>= f h) w = (.error signal, u) := by rw [bind_apply, result]
    refine ⟨.inr ⟨signal, by rw [ended]⟩, by rwa [ended], fun runModule dump saveCached => ?_⟩
    rw [bind_apply, idle, result, ended]
  · obtain rfl : x = a := by
      obtain same | ⟨_, broken⟩ := ends
      · exact Except.ok.inj same
      · cases broken
    have ended : (m h >>= f h) w = f h x u := bind_ok result
    refine ⟨ended ▸ (rest u).ends, ended ▸ kept.trans (rest u).preserves, ?_⟩
    intro runModule dump saveCached
    rw [bind_ok ((idle runModule dump saveCached).trans result), ended]
    exact (rest u).idle runModule dump saveCached

theorem raiseText (discreet : h.IsDiscreet c) (severity : Severity) (trace : Trace) (text : Bytes)
    (w : World τ) : Lapses c h (fun h => Diagnostics.raiseText h c severity trace text) () w where
  ends := by
    cases (Diagnostics.raiseText h c severity trace text w).1 with
    | error signal => exact .inr ⟨signal, rfl⟩
    | ok => exact .inl rfl
  preserves := Diagnostics.raiseText_preserves discreet severity trace text w
  idle runModule dump saveCached :=
    have reports : h.ReportsAs { h with runModule, dump, saveCached } := ⟨rfl, rfl, rfl⟩
    congrFun (reports.raiseText c severity trace text) w

end Run.Lapses

namespace Include

variable {kind : IncludeKind} {path file : Bytes}

inductive Fails (h : Host τ) (c : ContextId) (path : Bytes) (w : World τ) : Prop where
  | missing (nowhere : findFile w.files (w.context c).searchPath.directories path = none)
  | unreadable {file : Bytes} {e : FileError}
      (found : findFile w.files (w.context c).searchPath.directories path = some file)
      (unknown : ¬ w.HasImported c file) (unshared : (w.scopeOf c).modules.get? file = none)
      (unread : w.files.read file = .error e)
  | refused {file code : Bytes} {e : ImportError} {v : World τ}
      (found : findFile w.files (w.context c).searchPath.directories path = some file)
      (unknown : ¬ w.HasImported c file) (read : w.files.read file = .ok code)
      (failed : Modules.importSource h c ⟨file, file, code⟩ w = (.ok (.error e), v))

variable (discreet : h.IsDiscreet c)
include discreet

theorem failed_lapses (kind : IncludeKind) (path : Bytes) (trace : Trace) (w : World τ) :
    Lapses c h (fun h => failed h c kind path trace) (.bool false) w := by
  refine .of_read (context_apply w c) ?_
  cases kind.isRequired with
  | true => exact .bind (.raiseText discreet _ trace _ w) (.value c h _)
  | false => exact .bind (.raiseText discreet _ trace _ w) (.value c h _)

omit discreet in
theorem moduleOfFile_lapses (unknown : ¬ w.HasImported c file)
    (unshared : (w.scopeOf c).modules.get? file = none) (kind : IncludeKind) (trace : Trace)
    (rest : Lapses c h (fun h => do
      let .ok code := (← get).files.read file | return none
      match ← Modules.importSource h c ⟨file, file, code⟩ with
      | .ok m => return some m
      | .error e =>
        let severity := match e with
          | .noCompiler => Severity.coreError
          | _ => Severity.parse
        Diagnostics.raiseText h c severity trace (kind.name ++ "(): " ++ e.message)
        return none : Host τ → Run τ (Option ModuleId)) none w) :
    Lapses c h (fun h => moduleOfFile h c kind file trace) none w := by
  refine .of_read (context_apply w c) ?_
  simp only [World.get?_of_not_hasImported unknown]
  have sought := Modules.findModule_apply w (w.context c).scope file
  split at sought
  next => exact .of_unwound sought
  next =>
    rw [show (w.scopes.get (w.context c).scope).modules.get? file = none from unshared] at sought
    exact .of_read sought rest

theorem moduleOfFile_refused (housed : w.scopes.has (w.context c).scope) (named : file ≠ [])
    (unknown : ¬ w.HasImported c file) {code : Bytes} (read : w.files.read file = .ok code)
    {e : ImportError} (failed : Modules.importSource h c ⟨file, file, code⟩ w = (.ok (.error e), v))
    (kind : IncludeKind) (trace : Trace) :
    Lapses c h (fun h => moduleOfFile h c kind file trace) none w := by
  have unshared := Modules.unshared_of_fails named unknown failed
  refine moduleOfFile_lapses unknown unshared kind trace (.of_read (get_apply w) ?_)
  simp only [read]
  obtain ⟨kept, idle⟩ := Modules.importSource_fails discreet housed failed
  have imported : Lapses c h (fun h => Modules.importSource h c ⟨file, file, code⟩) (.error e) w :=
    ⟨.inl (by rw [failed]), by rwa [failed], fun _ _ _ => (idle _ _ _).trans failed.symm⟩
  exact .bind imported fun u => .bind (.raiseText discreet _ trace _ u) (.value c h _)

theorem unloaded_lapses {kind : IncludeKind} {table : Option TableId} {trace : Trace}
    (unknown : ¬ w.HasImported c file)
    (unloaded : Lapses c h (fun h => moduleOfFile h c kind file trace) none w) :
    Lapses c h (fun h => do
      if kind.isOnce && (← Run.context c).modules.contains file then return .bool true
      let some m ← moduleOfFile h c kind file trace | failed h c kind path trace
      let table := table.getD (← Run.context c).globals
      let frame : Frame := { trace, args := some [.text path], function := kind.name }
      Calls.during c frame (Modules.run h c m (some table)) : Host τ → Run τ Value)
      (.bool false) w := by
  refine .of_read (context_apply w c) ?_
  rw [show (w.context c).modules.contains file = false from Bool.eq_false_iff.2 unknown,
    Bool.and_false]
  exact .bind unloaded (failed_lapses discreet kind path trace)

theorem run_lapses (housed : w.scopes.has (w.context c).scope) (fails : Fails h c path w)
    (kind : IncludeKind) (table : Option TableId) (trace : Trace) :
    Lapses c h (fun h => run h c kind path table trace) (.bool false) w := by
  have sought : find c path w =
      (.ok (findFile w.files (w.context c).searchPath.directories path), w) := rfl
  cases fails with
  | missing nowhere =>
    rw [nowhere] at sought
    exact .of_read sought (failed_lapses discreet kind path trace w)
  | unreadable found unknown unshared unread =>
    rw [found] at sought
    refine .of_read sought (unloaded_lapses discreet unknown
      (moduleOfFile_lapses unknown unshared kind trace ?_))
    refine .of_read (get_apply w) ?_
    simp only [unread]
    exact .value c h none w
  | refused found unknown read failed =>
    rw [found] at sought
    have named := ne_nil_of_findFile found
    exact .of_read sought (unloaded_lapses discreet unknown
      (moduleOfFile_refused discreet housed named unknown read failed kind trace))

end Include

end ScriptHost
