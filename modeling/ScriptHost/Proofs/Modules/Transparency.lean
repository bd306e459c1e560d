import ScriptHost.Proofs.Modules.Blindness

set_option autoImplicit false

namespace ScriptHost

open Run

variable {σ ν α : Type} {h : Host σ} {caching : Caching σ ν} {w : World σ}

theorem Sha256.length_digest (message : Bytes) : (digest message).length = 32 := by
  simp [digest, bigEndian]

structure Caching.Conceals (caching : Caching σ ν)
    (adds : Callback → Bytes → Bytes → Bytes → Prop) (own own' : σ) : Prop where
  visible : caching.visible own' = caching.visible own
  kept : ∀ k name digest payload, caching.kept own' k name digest payload →
    caching.kept own k name digest payload ∨ adds k name digest payload

def Run.IsHidden (caching : Caching σ ν) (adds : Callback → Bytes → Bytes → Bytes → Prop)
    (m : Run σ α) : Prop :=
  ∀ w, ∃ a own, m w = (.ok a, { w with embedder := own }) ∧
    caching.Conceals adds w.embedder own

/-- A compiler whose modules can be read back, and caches of the embedder that keep what they are
given or lose it. Each of them may fail at any time. -/
structure Host.IsFaithful (h : Host σ) (caching : Caching σ ν) : Prop
    extends h.Overlooks caching where
  dump : ∀ m, IsHidden caching (fun _ _ _ _ => False) (h.dump caching.compiler m)
  undump : ∀ c source payload w, caching.sources source →
    h.Dumps caching.compiler source.name source.code payload → w.Trusted h caching →
    ∃ m u v, h.compile caching.compiler c source w = (.ok (.ok m), u) ∧
      h.undump caching.compiler c source payload w = (.ok (.ok m), v) ∧ v.Twins h caching u
  fetchCached : ∀ k name digest, caching.caches (.external k) →
    IsHidden caching (fun _ _ _ _ => False) (h.fetchCached k name digest)
  fetched : ∀ k name digest payload w v, caching.caches (.external k) →
    h.fetchCached k name digest w = (.ok (.ok (some payload)), v) →
    caching.kept w.embedder k name digest payload
  saveCached : ∀ k name digest payload, caching.caches (.external k) →
    IsHidden caching (fun k' n d p => k' = k ∧ n = name ∧ d = digest ∧ p = payload)
      (h.saveCached k name digest payload)
  apart : ∀ x y, caching.sources x → caching.sources y →
    Sha256.digest x.code = Sha256.digest y.code → x.code = y.code
  short : ∀ source payload, caching.sources source →
    h.Dumps caching.compiler source.name source.code payload →
    source.name.length < Cbor.headLimit ∧ payload.length < Cbor.headLimit

namespace World.Trusted

theorem conceal (trusted : w.Trusted h caching) {adds : Callback → Bytes → Bytes → Bytes → Prop}
    {own : σ} (conceals : caching.Conceals adds w.embedder own)
    (accounted : ∀ k name digest payload, adds k name digest payload →
      caching.Accounts h name digest payload) :
    World.Twins h caching { w with embedder := own } w := by
  refine ⟨?_, ⟨trusted.scopes, fun cache name digest payload used offers => ?_⟩, trusted⟩
  · show { w.bare caching.visible with embedder := caching.visible own } = w.bare caching.visible
    rw [conceals.visible]
    rfl
  · cases cache with
    | store s => exact trusted.entries _ _ _ _ used offers
    | external k =>
      rcases conceals.kept k name digest payload offers with old | new
      · exact trusted.entries (.external k) _ _ _ used old
      · exact accounted k name digest payload new

theorem put (trusted : w.Trusted h caching) (s : StoreId) {p : Put}
    (digest : p.sourceDigest.length = 32) (name : p.name.length < Cbor.headLimit)
    (payload : p.payload.length < Cbor.headLimit)
    (accounted : caching.Accounts h p.name p.sourceDigest p.payload) :
    World.Twins h caching (w.withRows s ((Edit.put p).applied (w.rowsOf s))) w := by
  refine ⟨rfl, ⟨trusted.scopes, fun cache n d found used offers => ?_⟩, trusted⟩
  cases cache with
  | external k => exact trusted.entries (.external k) _ _ _ used offers
  | store s' =>
    have rows : (w.withRows s ((Edit.put p).applied (w.rowsOf s))).rowsOf s' = _ :=
      w.databases.get_modify (w.stores.get s).database (w.stores.get s').database _
    rw [Offers, rows] at offers
    split at offers
    next same =>
      have here : w.rowsOf s = w.rowsOf s' := congrArg w.databases.get same.1
      rw [here] at offers
      rcases Database.fetch_put (by rintro none; simp [none] at digest) name
        (by rw [digest]; decide) payload offers with old | ⟨rfl, rfl, rfl⟩
      · exact trusted.entries (.store s') _ _ _ used old
      · exact accounted
    next => exact trusted.entries (.store s') _ _ _ used offers

end World.Trusted

theorem Connection.fetch_cases (w : World σ) (s : StoreId) (name digest : Bytes) :
    ∃ result, fetch s name digest w = (.ok result, w) ∧ ∀ payload, result = .ok (some payload) →
      (w.rowsOf s).fetch name digest = .ok (some payload) := by
  unfold fetch reading
  rw [bind_apply, get_apply]
  dsimp only
  cases obstacle? w (w.stores.get s) .query with
  | some e => exact ⟨_, rfl, nofun⟩
  | none => exact ⟨_, rfl, fun _ => id⟩

theorem Connection.save_cases (s : StoreId) {p : Put} (digest : p.sourceDigest ≠ [])
    (now : p.time = (w.stores.get s).now) :
    ∃ result v, save s p.name p.sourceDigest p.payload w = (.ok result, v) ∧
      (v = w ∨ v = w.withRows s ((Edit.put p).applied (w.rowsOf s))) := by
  have saved := Database.save_of_digest (w.rowsOf s) digest
  rw [now] at saved
  unfold save changing
  rw [bind_apply, get_apply]
  dsimp only
  cases obstacle? w (w.stores.get s) .save with
  | some e => exact ⟨_, _, rfl, .inl rfl⟩
  | none =>
    dsimp only
    split
    next => exact ⟨_, _, rfl, .inl rfl⟩
    next =>
      rw [show (w.databases.get (w.stores.get s).database).save _ _ _ _ = _ from saved]
      exact ⟨_, _, rfl, .inr rfl⟩

namespace Modules

variable {cache : ModuleCache} {source : Source} {c : ContextId} {s : Scope}

theorem fetchCached_hidden (faithful : h.IsFaithful caching) (trusted : w.Trusted h caching)
    (used : caching.caches cache) (source : Source) :
    ∃ found v, fetchCached h cache source w = (.ok found, v) ∧ v.Twins h caching w ∧
      ∀ payload, found = some payload →
        w.Offers caching cache source.name (Sha256.digest source.code) payload := by
  cases cache with
  | store d =>
    obtain ⟨result, fetched, found⟩ := Connection.fetch_cases w d source.name
      (Sha256.digest source.code)
    rw [fetchCached, bind_ok fetched]
    cases result with
    | error => exact ⟨none, _, rfl, .refl trusted, nofun⟩
    | ok payload => exact ⟨payload, _, rfl, .refl trusted, fun p same => found p (same ▸ rfl)⟩
  | external k =>
    obtain ⟨result, own, fetched, conceals⟩ :=
      faithful.fetchCached k source.name (Sha256.digest source.code) used w
    have twins := trusted.conceal conceals nofun
    rw [fetchCached, bind_ok fetched]
    cases result with
    | error => exact ⟨none, _, rfl, twins, nofun⟩
    | ok found =>
      refine ⟨found, _, rfl, twins, fun payload same => ?_⟩
      exact faithful.fetched k _ _ payload w _ used (same ▸ fetched)

theorem saveCached_hidden (faithful : h.IsFaithful caching) (trusted : w.Trusted h caching)
    (used : caching.caches cache) (given : caching.sources source) {payload : Bytes}
    (dumps : h.Dumps caching.compiler source.name source.code payload) :
    ∃ v, saveCached h cache source payload w = (.ok (), v) ∧ v.Twins h caching w := by
  have accounted : caching.Accounts h source.name (Sha256.digest source.code) payload :=
    ⟨source, given, rfl, rfl, dumps⟩
  obtain ⟨shortName, shortPayload⟩ := faithful.short source payload given dumps
  cases cache with
  | store d =>
    have length := Sha256.length_digest source.code
    let p : Put := ⟨(w.stores.get d).now, source.name, Sha256.digest source.code, payload⟩
    obtain ⟨result, v, saved, cases⟩ := Connection.save_cases (w := w) d (p := p)
      (by rintro none; simp [p] at none; simp [none] at length) rfl
    refine ⟨v, (bind_ok saved).trans rfl, ?_⟩
    rcases cases with rfl | rfl
    · exact .refl trusted
    · exact trusted.put d length shortName shortPayload accounted
  | external k =>
    obtain ⟨result, own, saved, conceals⟩ :=
      faithful.saveCached k source.name (Sha256.digest source.code) payload used w
    refine ⟨_, (bind_ok saved).trans rfl, trusted.conceal conceals ?_⟩
    rintro k n d found ⟨-, rfl, rfl, rfl⟩
    exact accounted

theorem keeping?_eq {compiler : Compiler} (kept : keeping? s source = some (compiler, cache)) :
    s.compiler = some compiler ∧ s.cache = some cache := by
  unfold keeping? at kept
  split at kept
  next given own =>
    split at kept
    next =>
      cases kept
      exact ⟨given, own⟩
    next => cases kept
  next => cases kept

def compileIn (h : Host σ) (s : Scope) (c : ContextId) (source : Source) :
    Run σ (Except ImportError ModuleId) :=
  match s.compiler with
  | none => return .error .noCompiler
  | some compiler => do
    match ← h.compile compiler.callback c source with
    | .error f => return .error (.compile f)
    | .ok m => return .ok m

theorem loadOrCompile_of_unkept (h : Host σ) (c : ContextId) (unkept : keeping? s source = none) :
    loadOrCompile h s c source = compileIn h s c source := by
  unfold loadOrCompile loadPrecompiled storePrecompiled compileIn
  rw [unkept]
  cases s.compiler <;> rfl

theorem loadOrCompile_uncached (h : Host σ) (s : Scope) (c : ContextId) (source : Source) :
    loadOrCompile h s.uncached c source = compileIn h s c source := by
  refine loadOrCompile_of_unkept h c ?_
  rw [keeping?, Scope.uncached]
  split <;> simp_all

theorem compileIn_blind (faithful : h.IsFaithful caching) (s : Scope) (c : ContextId)
    (source : Source) : Blind h caching (compileIn h s c source) := by
  unfold compileIn
  split
  next => exact .pure _
  next compiler _ =>
    refine .bind (faithful.compile compiler.callback c source) fun compiled => ?_
    cases compiled <;> exact .pure _

theorem storePrecompiled_hidden (faithful : h.IsFaithful caching) (fits : s.Fits caching)
    (given : caching.sources source) {compiler : Compiler}
    (kept : keeping? s source = some (compiler, cache)) {m : ModuleId} {u : World σ}
    (compiled : h.compile compiler.callback c source u = (.ok (.ok m), w))
    (trusted : w.Trusted h caching) :
    ∃ v, storePrecompiled h s source m w = (.ok (), v) ∧ v.Twins h caching w := by
  obtain ⟨compiles, own⟩ := keeping?_eq kept
  have same := fits.compiler cache compiler own compiles
  rw [same] at compiled
  obtain ⟨result, after, dumped, conceals⟩ := faithful.dump m w
  have twins := trusted.conceal conceals nofun
  unfold storePrecompiled
  rw [kept]
  dsimp only
  rw [same, bind_ok dumped]
  cases result with
  | error => exact ⟨_, rfl, twins⟩
  | ok payload =>
    have dumps : h.Dumps caching.compiler source.name source.code payload :=
      ⟨c, source.path, m, u, w, _, compiled, dumped⟩
    obtain ⟨v, saved, later⟩ :=
      saveCached_hidden faithful twins.left (fits.cache cache own) given dumps
    exact ⟨v, saved, later.trans twins⟩

theorem loadPrecompiled_found (faithful : h.IsFaithful caching) (fits : s.Fits caching)
    (c : ContextId) (given : caching.sources source) {compiler : Compiler}
    (kept : keeping? s source = some (compiler, cache)) {payload : Bytes} {v : World σ}
    (fetched : fetchCached h cache source w = (.ok (some payload), v))
    (dumps : h.Dumps caching.compiler source.name source.code payload)
    (trusted : v.Trusted h caching) :
    ∃ m u x, h.compile compiler.callback c source v = (.ok (.ok m), u) ∧
      loadPrecompiled h s c source w = (.ok (.ok (some m)), x) ∧ x.Twins h caching u := by
  obtain ⟨compiles, own⟩ := keeping?_eq kept
  have callback := fits.compiler cache compiler own compiles
  obtain ⟨m, u, x, compiled, undumped, like⟩ :=
    faithful.undump c source payload v given dumps trusted
  refine ⟨m, u, x, callback ▸ compiled, ?_, like⟩
  rw [loadPrecompiled, kept]
  dsimp only
  rw [bind_ok fetched]
  dsimp only
  rw [callback, bind_ok undumped]
  rfl

theorem loadOrCompile_alike (faithful : h.IsFaithful caching) (fits : s.Fits caching)
    (c : ContextId) (given : caching.sources source) :
    (loadOrCompile h s c source).Alike h caching (compileIn h s c source) := by
  cases kept : keeping? s source with
  | none =>
    rw [loadOrCompile_of_unkept h c kept]
    exact compileIn_blind faithful s c source
  | some keeping =>
    obtain ⟨compiler, cache⟩ := keeping
    obtain ⟨compiles, own⟩ := keeping?_eq kept
    have used := fits.cache cache own
    intro w w' twins
    obtain ⟨found, v, fetched, unseen, offers⟩ :=
      fetchCached_hidden faithful twins.left used source
    obtain ⟨same, after⟩ := faithful.compile compiler.callback c source v w' (unseen.trans twins)
    rw [compileIn, compiles]
    dsimp only
    rw [bind_apply]
    generalize h.compile compiler.callback c source w' = ended at same after
    obtain ⟨outcome', u'⟩ := ended
    cases found with
    | none =>
      have missed : loadPrecompiled h s c source w = (.ok (.ok none), v) := by
        rw [loadPrecompiled, kept]
        exact bind_ok fetched
      rw [loadOrCompile, bind_ok missed, compiles]
      dsimp only
      rw [bind_apply]
      rcases compiled : h.compile compiler.callback c source v with ⟨outcome, u⟩
      rw [compiled] at same after
      obtain rfl : outcome = outcome' := same
      rcases outcome with signal | f | m
      · exact ⟨rfl, after⟩
      · exact ⟨rfl, after⟩
      · obtain ⟨x, stored, later⟩ :=
          storePrecompiled_hidden faithful fits given kept compiled after.left
        dsimp only
        rw [bind_ok stored]
        exact ⟨rfl, later.trans after⟩
    | some payload =>
      -- The entry was made of this very source: its name and its digest are the same.
      obtain ⟨origin, original, name, digest, dumps⟩ :=
        twins.left.entries cache _ _ _ used (offers payload rfl)
      rw [name, faithful.apart origin source original given digest] at dumps
      obtain ⟨m, u, x, compiled, read, like⟩ :=
        loadPrecompiled_found faithful fits c given kept fetched dumps unseen.left
      rw [compiled] at same after
      obtain rfl : _ = outcome' := same
      rw [loadOrCompile, bind_ok read]
      exact ⟨rfl, like.trans after⟩

theorem awaitScope_bind (s : ScopeId) (f : Scope → Run σ α) :
    awaitScope s >>= f =
      Run.scope s >>= fun x => if x.isImporting then Run.exhausted else f x := by
  funext w
  rw [bind_apply, awaitScope_apply, bind_ok (scope_apply w s)]
  cases (w.scopes.get s).isImporting with
  | true => rfl
  | false => rfl

theorem importInScope_blind (faithful : h.IsFaithful caching) (s : ScopeId) (c : ContextId)
    (given : caching.sources source) : Blind h caching (importInScope h s c source) := by
  rw [importInScope, awaitScope_bind]
  refine .scope_bind_fits s fun x fits => ?_
  rw [show x.uncached.isImporting = x.isImporting from rfl,
    show x.uncached.modules = x.modules from rfl]
  cases x.isImporting with
  | true => exact .throw _
  | false =>
    dsimp only
    cases (if source.name.isEmpty then none else x.modules.get? source.name) with
    | some m => exact .pure _
    | none =>
      refine .bind (setImporting_blind s true) fun _ =>
        .ensuring ?_ (setImporting_blind s false)
      -- only the load itself differs between the two scopes
      have loaded : (loadOrCompile h x c source).Alike h caching
          (loadOrCompile h x.uncached c source) := by
        rw [loadOrCompile_uncached]
        exact loadOrCompile_alike faithful fits c given
      refine .bind loaded fun result => ?_
      cases result with
      | error => exact .pure _
      | ok m => exact .bind (conclude_blind s source m) fun _ => .pure _

theorem importSource_blind (faithful : h.IsFaithful caching) (c : ContextId)
    (given : caching.sources source) : Blind h caching (importSource h c source) := by
  refine .bind (context_blind h caching c) fun x => ?_
  dsimp only
  split
  next => exact .pure _
  next =>
    refine .bind (importInScope_blind faithful x.scope c given) fun result => ?_
    cases result with
    | error => exact .pure _
    | ok m => exact .bind (register_blind faithful.toOverlooks c m) fun _ => .pure _

inductive Step where
  | newScope (s : Scope)
  | newContext (s : ScopeId) (sink : SinkId) (options : ContextOptions)
  | importSource (c : ContextId) (source : Source)

namespace Step

def perform (h : Host σ) : Step → Run σ (Option (Except ImportError ModuleId))
  | newScope s => do
    let _ ← ScopeRegistry.make s
    return none
  | newContext s sink options => do
    let _ ← Execution.create h s sink options
    return none
  | importSource c source => return some (← Modules.importSource h c source)

def uncached : Step → Step
  | newScope s => newScope s.uncached
  | step => step

def Fits (caching : Caching σ ν) : Step → Prop
  | newScope s => s.Fits caching
  | newContext .. => True
  | importSource _ source => caching.sources source

end Step

def performAll (h : Host σ) :
    List Step → World σ → List (Except Signal (Option (Except ImportError ModuleId))) × World σ
  | [], w => ([], w)
  | step :: rest, w =>
    let first := step.perform h w
    let others := performAll h rest first.2
    (first.1 :: others.1, others.2)

end Modules

theorem World.Trusted.addScope (trusted : w.Trusted h caching) {s : Scope} (fits : s.Fits caching) :
    World.Trusted { w with scopes := w.scopes.add s } h caching := by
  refine ⟨fun d => ?_, trusted.entries⟩
  show ((w.scopes.add s).get d).Fits caching
  rw [w.scopes.get_add]
  split
  next => exact fits
  next => exact trusted.scopes d

theorem Scope.uncached_fits (s : Scope) (caching : Caching σ ν) : s.uncached.Fits caching :=
  ⟨nofun, nofun⟩

def World.uncached (w : World σ) : World σ := { w with scopes := w.scopes.map Scope.uncached }

theorem World.Trusted.uncached (trusted : w.Trusted h caching) :
    w.Twins h caching w.uncached := by
  refine ⟨?_, trusted, ⟨fun s => ?_, trusted.entries⟩⟩
  · refine congrArg (fun scopes => { w.bare caching.visible with scopes }) ?_
    exact congrArg Pool.mk (by simp [World.uncached, Pool.map, Scope.uncached])
  · rw [World.uncached, w.scopes.get_map rfl s]
    exact Scope.uncached_fits ..

namespace Modules

theorem Step.perform_alike (faithful : h.IsFaithful caching) {step : Step}
    (fits : step.Fits caching) :
    (step.perform h).Alike h caching (step.uncached.perform h) := by
  cases step with
  | newScope s =>
    have made : (ScopeRegistry.make s : Run σ ScopeId).Alike h caching
        (ScopeRegistry.make s.uncached) := by
      have added (x : Scope) (w : World σ) :
          ((ScopeRegistry.make x w).1, (ScopeRegistry.make x w).2.bare caching.visible) =
            ScopeRegistry.make x.uncached (w.bare caching.visible) :=
        congrArg₂ (fun next scopes =>
            ((.ok next, { w.bare caching.visible with scopes }) : Except Signal ScopeId × World ν))
          (w.scopes.next_map Scope.uncached).symm (w.scopes.map_add Scope.uncached x)
      exact .of_common (ScopeRegistry.make s.uncached) (added s) (added s.uncached)
        (fun _ trusted => trusted.addScope fits)
        fun _ trusted => trusted.addScope (s.uncached_fits caching)
    exact .bind made fun _ => .pure _
  | newContext s sink options =>
    exact .bind (Execution.create_blind faithful.toOverlooks s sink options) fun _ => .pure _
  | importSource c source => exact .bind (importSource_blind faithful c fits) fun _ => .pure _

/-- Imports of one source after another, into any number of scopes that share caches, come out as
they would without the caches, and so does everything else that can be seen. -/
theorem imports_transparent (faithful : h.IsFaithful caching) (trusted : w.Trusted h caching)
    (steps : List Step) (fit : ∀ step ∈ steps, step.Fits caching) :
    (performAll h steps w).1 = (performAll h (steps.map Step.uncached) w.uncached).1 ∧
    (performAll h steps w).2.bare caching.visible =
      (performAll h (steps.map Step.uncached) w.uncached).2.bare caching.visible := by
  suffices alike : ∀ w w', w.Twins h caching w' →
      (performAll h steps w).1 = (performAll h (steps.map Step.uncached) w').1 ∧
      (performAll h steps w).2.Twins h caching (performAll h (steps.map Step.uncached) w').2 by
    obtain ⟨outcomes, twins⟩ := alike w w.uncached trusted.uncached
    exact ⟨outcomes, twins.bare⟩
  clear trusted
  induction steps with
  | nil => exact fun w w' twins => ⟨rfl, twins⟩
  | cons step rest ih =>
    intro w w' twins
    obtain ⟨fits, fit⟩ := List.forall_mem_cons.1 fit
    obtain ⟨same, after⟩ := Step.perform_alike faithful fits w w' twins
    obtain ⟨others, last⟩ := ih fit _ _ after
    exact ⟨congrArg₂ List.cons same others, last⟩

end Modules

def newConstantModule {τ : Type} (name : Bytes) : Run τ ModuleId := do
  let k ← Run.newConstant { name, value := .null, isCaseSensitive := true, trace := {} }
  Run.newModule { (default : Module) with constants := [k] }

def Host.archivist : Host Nat :=
  { Host.idle with
    compile := fun _ _ source => do
      if source.code.isEmpty then return .error (.plain "nothing to compile")
      modify fun w => { w with embedder := w.embedder + 1 }
      return .ok (← newConstantModule source.code)
    dump := fun _ m => do
      let some k := (← Run.moduleOf m).constants.head? | return .error (.plain "nothing to dump")
      return .ok (← Run.constantOf k).name
    undump := fun _ _ _ payload => return .ok (← newConstantModule payload) }

def Caching.ofStore : Caching Nat Unit where
  caches cache := cache = .store ⟨0⟩
  compiler := ⟨0⟩
  sources source := source.name = "m" ∧ (source.code = "A" ∨ source.code = "B")
  visible _ := ()
  kept _ _ _ _ _ := False

theorem Host.archivist_dump {name : Bytes} {m : ModuleId} {u v : World Nat}
    (made : newConstantModule name u = (.ok m, v)) (k : Callback) :
    Host.archivist.dump k m v = (.ok (.ok name), v) := by
  cases made
  unfold Host.archivist
  dsimp only
  rw [bind_ok (moduleOf_apply _ _), Pool.get_add_next]
  dsimp only [List.head?]
  rw [bind_ok (constantOf_apply _ _), Pool.get_add_next]
  rfl

theorem Host.archivist_dumps {name code payload : Bytes}
    (dumps : Host.archivist.Dumps ⟨0⟩ name code payload) : code ≠ [] ∧ payload = code := by
  obtain ⟨c, path, m, u, v, w, compiled, dumped⟩ := dumps
  cases code with
  | nil => cases compiled
  | cons first rest =>
    obtain ⟨_, x, _, made⟩ := of_bind_ok compiled
    obtain ⟨_, y, made, last⟩ := of_bind_ok made
    cases last
    cases (Host.archivist_dump made ⟨0⟩).symm.trans dumped
    exact ⟨nofun, rfl⟩

theorem Host.archivist_faithful : Host.archivist.IsFaithful Caching.ofStore where
  compile k c source := by
    unfold Host.archivist
    dsimp only
    split
    next => exact .pure _
    next =>
      refine .bind (.of_bare (Pure.pure ()) (fun _ => rfl) fun _ trusted =>
        ⟨trusted.scopes, trusted.entries⟩) fun _ => ?_
      refine .bind (.of_bare (newConstantModule source.code) (fun _ => rfl) fun _ trusted =>
        ⟨trusted.scopes, trusted.entries⟩) fun m => .pure _
  enterClass _ _ := .pure _
  handleError _ _ _ := .pure _
  reportError _ _ _ := .pure _
  filterOutput _ _ _ _ := .pure _
  loadExtension _ _ := .pure _
  dump m w := by
    have unchanged : Caching.ofStore.Conceals (fun _ _ _ _ => False) w.embedder w.embedder :=
      ⟨rfl, fun _ _ _ _ => .inl⟩
    unfold Host.archivist
    dsimp only
    rw [bind_ok (moduleOf_apply w m)]
    cases (w.modules.get m).constants.head? with
    | none => exact ⟨_, w.embedder, rfl, unchanged⟩
    | some k => exact ⟨_, w.embedder, rfl, unchanged⟩
  undump c source payload w given dumps trusted := by
    obtain ⟨present, rfl⟩ := Host.archivist_dumps dumps
    have compiled : Host.archivist.compile ⟨0⟩ c source w = (do
        modify fun w => { w with embedder := w.embedder + 1 }
        return .ok (← newConstantModule source.code) : Run Nat (Except Failure ModuleId)) w := by
      unfold Host.archivist
      simp [present]
    exact ⟨_, _, _, compiled, rfl, rfl, ⟨trusted.scopes, trusted.entries⟩,
      ⟨trusted.scopes, trusted.entries⟩⟩
  fetchCached _ _ _ used := nomatch used
  fetched _ _ _ _ _ _ used := nomatch used
  saveCached _ _ _ _ used := nomatch used
  apart x y givenX givenY same := by
    rcases givenX.2 with codeX | codeX <;> rcases givenY.2 with codeY | codeY <;>
      rw [codeX, codeY] at same ⊢
    · exact absurd same (by decide +kernel)
    · exact absurd same (by decide +kernel)
  short source payload given dumps := by
    obtain ⟨-, rfl⟩ := Host.archivist_dumps dumps
    rw [given.1]
    rcases given.2 with code | code <;> rw [code] <;> decide

def shelf : World Nat where
  allocators := Pool.empty.add .empty
  sinks := Pool.empty.add default
  databases := Pool.empty.add .empty
  stores := Pool.empty.add ⟨⟨0⟩, [], 0, false, false⟩
  files := FileTree.make "/"
  observers := standardObservers
  embedder := 0

theorem shelf_trusted : shelf.Trusted Host.archivist Caching.ofStore := by
  refine ⟨fun s => ?_, fun cache name digest payload used offers => ?_⟩
  · have none : ¬ shelf.scopes.has s := by simp [Pool.has_iff, shelf, Pool.empty]
    rw [Pool.get_of_not_has _ none]
    exact ⟨nofun, nofun⟩
  · cases used
    cases offers

namespace Modules

def readings : List Step :=
  let scope : Scope := { ids := ⟨0⟩, compiler := some ⟨⟨0⟩, true⟩, cache := some (.store ⟨0⟩) }
  [.newScope scope, .newContext ⟨0⟩ ⟨0⟩ {}, .importSource ⟨0⟩ ⟨"m", [], "A"⟩,
    .newScope scope, .newContext ⟨1⟩ ⟨0⟩ {}, .importSource ⟨1⟩ ⟨"m", [], "A"⟩,
    .newScope scope, .newContext ⟨2⟩ ⟨0⟩ {}, .importSource ⟨2⟩ ⟨"m", [], "B"⟩]

theorem imports_transparent_readings :
    (Host.archivist.IsFaithful Caching.ofStore ∧
      shelf.Trusted Host.archivist Caching.ofStore ∧
      ∀ step ∈ readings, step.Fits Caching.ofStore) ∧
    ((performAll Host.archivist readings shelf).2.embedder = 2 ∧
      (performAll Host.archivist (readings.map Step.uncached) shelf.uncached).2.embedder = 3) ∧
    (performAll Host.archivist readings shelf).1 =
      (performAll Host.archivist (readings.map Step.uncached) shelf.uncached).1 ∧
    (performAll Host.archivist readings shelf).2.bare Caching.ofStore.visible =
      (performAll Host.archivist (readings.map Step.uncached) shelf.uncached).2.bare
        Caching.ofStore.visible := by
  have faithful := Host.archivist_faithful
  have fit : ∀ step ∈ readings, step.Fits Caching.ofStore := by
    have scope : Scope.Fits { ids := ⟨0⟩, compiler := some ⟨⟨0⟩, true⟩, cache := some (.store ⟨0⟩) }
        Caching.ofStore :=
      ⟨fun _ given => (Option.some.inj given).symm, fun _ _ _ given => by cases given; rfl⟩
    have source {code : Bytes} (known : code = "A" ∨ code = "B") :
        Caching.ofStore.sources ⟨"m", [], code⟩ := ⟨rfl, known⟩
    simp only [readings, List.forall_mem_cons]
    exact ⟨scope, trivial, source (.inl rfl), scope, trivial, source (.inl rfl), scope, trivial,
      source (.inr rfl), nofun⟩
  exact ⟨⟨faithful, shelf_trusted, fit⟩, by decide +kernel,
    imports_transparent faithful shelf_trusted readings fit⟩

end Modules

end ScriptHost
