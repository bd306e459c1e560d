import ScriptHost.Proofs.Boundary.Classification
import ScriptHost.Proofs.Modules.Transparency

set_option autoImplicit false

namespace ScriptHost

open Run

variable {τ : Type} {h : Host τ} {w : World τ} {k : Callback} {c : ContextId} {source : Source}

structure Host.Accepts (h : Host τ) (k : Callback) (c : ContextId) (source : Source) : Prop where
  compile : ∀ w, ∃ m v, h.compile k c source w = (.ok (.ok m), v)
  dump : ∀ m, (h.dump k m).Returns
  undump : ∀ payload, (h.undump k c source payload).Returns
  fetchCached : ∀ cache name digest, (h.fetchCached cache name digest).Returns
  saveCached : ∀ cache name digest payload, (h.saveCached cache name digest payload).Returns

namespace Modules

theorem fetchCached_answers (accepts : h.Accepts k c source) (cache : ModuleCache) :
    (fetchCached h cache source).Returns := by
  intro w
  cases cache with
  | store d =>
    obtain ⟨result, fetched, -⟩ := Connection.fetch_cases w d source.name
      (Sha256.digest source.code)
    rw [fetchCached, bind_ok fetched]
    cases result <;> exact ⟨_, _, rfl⟩
  | external cache =>
    obtain ⟨result, v, fetched⟩ := accepts.fetchCached cache source.name
      (Sha256.digest source.code) w
    rw [fetchCached, bind_ok fetched]
    cases result <;> exact ⟨_, _, rfl⟩

theorem saveCached_answers (accepts : h.Accepts k c source) (cache : ModuleCache)
    (payload : Bytes) : (saveCached h cache source payload).Returns := by
  intro w
  cases cache with
  | store d =>
    have length := Sha256.length_digest source.code
    obtain ⟨result, v, saved, -⟩ := Connection.save_cases (w := w) d
      (p := ⟨(w.stores.get d).now, source.name, Sha256.digest source.code, payload⟩)
      (fun none => by rw [show Sha256.digest source.code = [] from none] at length; cases length) rfl
    exact ⟨_, _, bind_ok saved⟩
  | external cache =>
    obtain ⟨result, v, saved⟩ := accepts.saveCached cache source.name
      (Sha256.digest source.code) payload w
    exact ⟨_, _, bind_ok saved⟩

theorem storePrecompiled_answers (accepts : h.Accepts k c source) {s : Scope}
    {compiler : Compiler} (compiles : s.compiler = some compiler)
    (callback : compiler.callback = k) (m : ModuleId) :
    (storePrecompiled h s source m).Returns := by
  intro w
  unfold storePrecompiled
  cases kept : keeping? s source with
  | none => exact ⟨_, _, rfl⟩
  | some keeping =>
    obtain ⟨other, cache⟩ := keeping
    obtain rfl : compiler = other := Option.some.inj (compiles.symm.trans (keeping?_eq kept).1)
    obtain ⟨dumped, u, dumps⟩ := accepts.dump m w
    dsimp only
    rw [callback, bind_ok dumps]
    cases dumped with
    | error => exact ⟨_, _, rfl⟩
    | ok payload => exact saveCached_answers accepts cache payload u

def offered (h : Host τ) (s : Scope) (source : Source) : Run τ (Option Bytes) :=
  match keeping? s source with
  | some (_, cache) => fetchCached h cache source
  | none => return none

theorem loadOrCompile_eq (h : Host τ) (c : ContextId) (source : Source) {s : Scope}
    {compiler : Compiler} (compiles : s.compiler = some compiler) :
    loadOrCompile h s c source = (do
      match ← offered h s source with
      | some payload =>
        match ← h.undump compiler.callback c source payload with
        | .error f => return .error (.undump source.name f)
        | .ok m => return .ok m
      | none =>
        match ← h.compile compiler.callback c source with
        | .error f => return .error (.compile f)
        | .ok m =>
          storePrecompiled h s source m
          return .ok m) := by
  unfold loadOrCompile loadPrecompiled offered
  cases kept : keeping? s source with
  | none =>
    rewrite [compiles]
    rfl
  | some keeping =>
    obtain ⟨other, cache⟩ := keeping
    obtain rfl : compiler = other := Option.some.inj (compiles.symm.trans (keeping?_eq kept).1)
    simp only [bind_assoc]
    refine congrArg _ (funext fun found => ?_)
    cases found with
    | none =>
      rewrite [compiles]
      rfl
    | some payload =>
      simp only [bind_assoc]
      refine congrArg _ (funext fun read => ?_)
      cases read <;> rfl

theorem offered_returns (accepts : h.Accepts k c source) (s : Scope) :
    (offered h s source).Returns := by
  intro w
  unfold offered
  cases keeping? s source with
  | none => exact ⟨none, w, rfl⟩
  | some keeping => exact fetchCached_answers accepts keeping.2 w

theorem fetch_of_offered {s : Scope} {d : StoreId} (own : s.cache = some (.store d))
    {payload : Bytes} {v : World τ} (offers : offered h s source w = (.ok (some payload), v)) :
    (w.rowsOf d).fetch source.name (Sha256.digest source.code) = .ok (some payload) := by
  unfold offered at offers
  cases kept : keeping? s source with
  | none =>
    rw [kept] at offers
    cases offers
  | some keeping =>
    obtain ⟨compiler, cache⟩ := keeping
    obtain rfl : .store d = cache := Option.some.inj (own.symm.trans (keeping?_eq kept).2)
    obtain ⟨result, fetched, hit⟩ := Connection.fetch_cases w d source.name
      (Sha256.digest source.code)
    rw [kept] at offers
    dsimp only at offers
    rw [fetchCached, bind_ok fetched] at offers
    cases result with
    | error => cases offers
    | ok found =>
      cases offers
      exact hit payload rfl

def Refuses (h : Host τ) (k : Callback) (c : ContextId) (source : Source) (w : World τ)
    (payload : Bytes) : Prop :=
  ∃ f v, h.undump k c source payload w = (.ok (.error f), v)

theorem loadOrCompile_survives (accepts : h.Accepts k c source) {s : Scope} {compiler : Compiler}
    (compiles : s.compiler = some compiler) (callback : compiler.callback = k) (w : World τ) :
    ∃ found u, offered h s source w = (.ok found, u) ∧
      (∀ payload f v, found = some payload →
        h.undump k c source payload u = (.ok (.error f), v) →
        loadOrCompile h s c source w = (.ok (.error (.undump source.name f)), v)) ∧
      ((∀ payload ∈ found, ¬ Refuses h k c source u payload) →
        ∃ m v, loadOrCompile h s c source w = (.ok (.ok m), v)) := by
  subst callback
  obtain ⟨found, u, offers⟩ := offered_returns accepts s w
  refine ⟨found, u, offers, ?_, ?_⟩
  · rintro payload f v rfl refused
    rw [loadOrCompile_eq h c source compiles, bind_ok offers]
    exact bind_ok refused
  · intro readable
    rw [loadOrCompile_eq h c source compiles, bind_ok offers]
    cases found with
    | none =>
      obtain ⟨m, v, compiled⟩ := accepts.compile u
      obtain ⟨_, v', stored⟩ := storePrecompiled_answers accepts compiles rfl m v
      exact ⟨m, v', (bind_ok compiled).trans (bind_ok stored)⟩
    | some payload =>
      obtain ⟨read, v, undumped⟩ := accepts.undump payload u
      cases read with
      | error f => exact absurd ⟨f, v, undumped⟩ (readable payload rfl)
      | ok m => exact ⟨m, v, bind_ok undumped⟩

/-- The cache of a scope cannot make the import of a source fail that the compiler accepts, but by
a payload that the compiler refuses. That one is the error of the import; in every other case there
is a module, and the context registers it. -/
theorem importSource_survives (accepts : h.Accepts k c source) {compiler : Compiler}
    (compiles : (w.scopeOf c).compiler = some compiler) (callback : compiler.callback = k)
    (free : (w.scopeOf c).isImporting = false)
    (unknown : source.name ≠ [] → (w.context c).modules.get? source.name = none ∧
      (w.scopeOf c).modules.get? source.name = none) :
    ∃ found u,
      offered h (w.scopeOf c) source (w.setImporting (w.context c).scope true) = (.ok found, u) ∧
      (∀ d payload, (w.scopeOf c).cache = some (.store d) → found = some payload →
        (w.rowsOf d).fetch source.name (Sha256.digest source.code) = .ok (some payload)) ∧
      (∀ payload f v, found = some payload →
        h.undump k c source payload u = (.ok (.error f), v) →
        importSource h c source w =
          (.ok (.error (.undump source.name f)), v.setImporting (w.context c).scope false)) ∧
      ((∀ payload ∈ found, ¬ Refuses h k c source u payload) →
        ∃ m v, importSource h c source w =
          (do register h c m; return .ok m : Run τ (Except ImportError ModuleId)) v) := by
  obtain ⟨found, u, offers, refused, readable⟩ := loadOrCompile_survives accepts compiles callback
    (w.setImporting (w.context c).scope true)
  have imports := importInScope_missing h c free fun named => (unknown named).2
  have fresh := importSource_unregistered h fun named => (unknown named).1
  refine ⟨found, u, offers, fun d payload own same => ?_, fun payload f v same undumped => ?_,
    fun allowed => ?_⟩
  · exact fetch_of_offered (w := w.setImporting (w.context c).scope true) own (same ▸ offers)
  · have loaded := refused payload f v same undumped
    rw [World.scopeOf] at loaded
    rw [fresh, bind_apply, imports, loaded]
    rfl
  · obtain ⟨m, v, loaded⟩ := readable allowed
    rw [World.scopeOf] at loaded
    refine ⟨m, (v.conclude (w.context c).scope source m).setImporting (w.context c).scope false, ?_⟩
    rw [fresh, bind_apply, imports, loaded]
    rfl

end Modules

def Host.purist : Host Nat :=
  { Host.archivist with
    undump := fun _ _ source payload => do
      if payload ≠ source.code then return .error (.plain "written by another version")
      return .ok (← newConstantModule payload) }

theorem Host.purist_accepts {source : Source} (present : source.code ≠ []) (k : Callback)
    (c : ContextId) : Host.purist.Accepts k c source where
  compile w := ⟨_, _, by
    unfold Host.purist Host.archivist
    simp [present]
    rfl⟩
  dump m w := by
    unfold Host.purist Host.archivist
    dsimp only
    rw [bind_ok (moduleOf_apply w m)]
    cases (w.modules.get m).constants.head? <;> exact ⟨_, _, rfl⟩
  undump payload w := by
    unfold Host.purist
    dsimp only
    split <;> exact ⟨_, _, rfl⟩
  fetchCached _ _ _ w := ⟨_, w, rfl⟩
  saveCached _ _ _ _ w := ⟨_, w, rfl⟩

namespace Modules

def shelved (payload : Bytes) : World Nat :=
  let scope : Scope := { ids := ⟨0⟩, compiler := some ⟨⟨0⟩, true⟩, cache := some (.store ⟨0⟩) }
  (performAll Host.purist [.newScope scope, .newContext ⟨0⟩ ⟨0⟩ {}]
    (Connection.save ⟨0⟩ "m" (Sha256.digest "A") payload shelf).2).2

theorem importSource_survives_shelved :
    (Host.purist.Accepts ⟨0⟩ ⟨0⟩ ⟨"m", [], "A"⟩ ∧
      ((shelved "A").scopeOf ⟨0⟩).compiler = some ⟨⟨0⟩, true⟩ ∧
      ((shelved "A").scopeOf ⟨0⟩).isImporting = false ∧
      ((shelved "A").context ⟨0⟩).modules.get? "m" = none ∧
      ((shelved "A").scopeOf ⟨0⟩).modules.get? "m" = none) ∧
    ∃ m v, importSource Host.purist ⟨0⟩ ⟨"m", [], "A"⟩ (shelved "A") =
      (do register Host.purist ⟨0⟩ m; return .ok m : Run Nat (Except ImportError ModuleId)) v := by
  have accepts : Host.purist.Accepts ⟨0⟩ ⟨0⟩ ⟨"m", [], "A"⟩ :=
    Host.purist_accepts (by decide) ⟨0⟩ ⟨0⟩
  have compiles : ((shelved "A").scopeOf ⟨0⟩).compiler = some ⟨⟨0⟩, true⟩ := by decide +kernel
  have free : ((shelved "A").scopeOf ⟨0⟩).isImporting = false := by decide +kernel
  have unknown : ((shelved "A").context ⟨0⟩).modules.get? "m" = none ∧
      ((shelved "A").scopeOf ⟨0⟩).modules.get? "m" = none := by decide +kernel
  obtain ⟨found, u, -, stored, -, survives⟩ :=
    importSource_survives accepts compiles rfl free fun _ => unknown
  refine ⟨⟨accepts, compiles, free, unknown⟩, survives fun payload here => ?_⟩
  rintro ⟨f, v, refused⟩
  have hit := stored ⟨0⟩ payload (by decide +kernel) here
  have original : ((shelved "A").rowsOf ⟨0⟩).fetch "m" (Sha256.digest "A") = .ok (some "A") := by
    decide +kernel
  obtain rfl : payload = "A" := by
    rw [original] at hit
    cases hit
    rfl
  unfold Host.purist at refused
  cases refused

theorem importSource_fails_by_payload :
    Host.purist.Accepts ⟨0⟩ ⟨0⟩ ⟨"m", [], "A"⟩ ∧
    ((shelved "A, first edition").scopeOf ⟨0⟩).compiler = some ⟨⟨0⟩, true⟩ ∧
    ((shelved "A, first edition").context ⟨0⟩).modules.get? "m" = none ∧
    ((shelved "A, first edition").scopeOf ⟨0⟩).modules.get? "m" = none ∧
    (importSource Host.purist ⟨0⟩ ⟨"m", [], "A"⟩ (shelved "A, first edition")).1.toOption.map
        (Except.mapError ImportError.message) =
      some (.error "undump m: written by another version") :=
  ⟨Host.purist_accepts (by decide) _ _, by decide +kernel⟩

end Modules

end ScriptHost
