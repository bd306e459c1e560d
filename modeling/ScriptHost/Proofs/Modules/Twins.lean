import ScriptHost.Execution
import ScriptHost.Proofs.Cache.History
import ScriptHost.Proofs.Embedder.Loading
import ScriptHost.Proofs.Output.Closure

set_option autoImplicit false

namespace ScriptHost

open Run

variable {σ ν α β : Type}

def Scope.uncached (s : Scope) : Scope := { s with cache := none }

namespace World

def bare (visible : σ → ν) (w : World σ) : World ν :=
  { w with
    scopes := w.scopes.map Scope.uncached
    databases := .empty
    stores := .empty
    embedder := visible w.embedder }

end World

structure Caching (σ ν : Type) where
  caches : ModuleCache → Prop
  compiler : Callback
  sources : Source → Prop
  visible : σ → ν
  kept : σ → Callback → Bytes → Bytes → Bytes → Prop

def Host.Dumps (h : Host σ) (k : Callback) (name code payload : Bytes) : Prop :=
  ∃ c path m u v w, h.compile k c ⟨name, path, code⟩ u = (.ok (.ok m), v) ∧
    h.dump k m v = (.ok (.ok payload), w)

structure Scope.Fits (s : Scope) (caching : Caching σ ν) : Prop where
  cache : ∀ cache, s.cache = some cache → caching.caches cache
  compiler : ∀ cache x, s.cache = some cache → s.compiler = some x → x.callback = caching.compiler

def Caching.Accounts (caching : Caching σ ν) (h : Host σ) (name digest payload : Bytes) : Prop :=
  ∃ source, caching.sources source ∧ source.name = name ∧ Sha256.digest source.code = digest ∧
    h.Dumps caching.compiler source.name source.code payload

namespace World

def Offers (w : World σ) (caching : Caching σ ν) (cache : ModuleCache)
    (name digest payload : Bytes) : Prop :=
  match cache with
  | .store s => (w.rowsOf s).fetch name digest = .ok (some payload)
  | .external k => caching.kept w.embedder k name digest payload

structure Trusted (w : World σ) (h : Host σ) (caching : Caching σ ν) : Prop where
  scopes : ∀ s, (w.scopes.get s).Fits caching
  entries : ∀ cache name digest payload, caching.caches cache →
    w.Offers caching cache name digest payload → caching.Accounts h name digest payload

structure Twins (h : Host σ) (caching : Caching σ ν) (w w' : World σ) : Prop where
  bare : w.bare caching.visible = w'.bare caching.visible
  left : w.Trusted h caching
  right : w'.Trusted h caching

namespace Twins

variable {h : Host σ} {caching : Caching σ ν} {u v w : World σ}

theorem symm (twins : v.Twins h caching w) : w.Twins h caching v :=
  ⟨twins.bare.symm, twins.right, twins.left⟩

theorem trans (first : u.Twins h caching v) (rest : v.Twins h caching w) : u.Twins h caching w :=
  ⟨first.bare.trans rest.bare, first.left, rest.right⟩

theorem refl (trusted : w.Trusted h caching) : w.Twins h caching w := ⟨rfl, trusted, trusted⟩

theorem scope (twins : v.Twins h caching w) (s : ScopeId) :
    (v.scopes.get s).uncached = (w.scopes.get s).uncached := by
  have read (x : World σ) :
      (x.bare caching.visible).scopes.get s = (x.scopes.get s).uncached := x.scopes.get_map rfl s
  rw [← read, ← read, twins.bare]

end Twins

end World

namespace Run

def Alike (h : Host σ) (caching : Caching σ ν) (m m' : Run σ α) : Prop :=
  ∀ w w', w.Twins h caching w' → (m w).1 = (m' w').1 ∧ (m w).2.Twins h caching (m' w').2

abbrev Blind (h : Host σ) (caching : Caching σ ν) (m : Run σ α) : Prop := m.Alike h caching m

namespace Alike

variable {h : Host σ} {caching : Caching σ ν}

theorem symm {m m' : Run σ α} (alike : m.Alike h caching m') : m'.Alike h caching m := by
  intro w w' twins
  obtain ⟨same, after⟩ := alike w' w twins.symm
  exact ⟨same.symm, after.symm⟩

theorem trans {m m' m'' : Run σ α} (first : m.Alike h caching m') (rest : m'.Alike h caching m'') :
    m.Alike h caching m'' := by
  intro w w' twins
  obtain ⟨same, after⟩ := first w w (.refl twins.left)
  obtain ⟨same', after'⟩ := rest w w' twins
  exact ⟨same.trans same', after.trans after'⟩

theorem pure (a : α) : Blind h caching (Pure.pure a : Run σ α) := fun _ _ twins => ⟨rfl, twins⟩

theorem throw (signal : Signal) : Blind h caching (MonadExcept.throw signal : Run σ α) :=
  fun _ _ twins => ⟨rfl, twins⟩

theorem bind {m m' : Run σ α} {f f' : α → Run σ β} (first : m.Alike h caching m')
    (rest : ∀ a, (f a).Alike h caching (f' a)) : (m >>= f).Alike h caching (m' >>= f') := by
  intro w w' twins
  obtain ⟨same, after⟩ := first w w' twins
  rw [bind_apply, bind_apply]
  generalize m w = ended at same after
  generalize m' w' = ended' at same after
  obtain ⟨outcome, v⟩ := ended
  obtain ⟨outcome', v'⟩ := ended'
  obtain rfl : outcome = outcome' := same
  cases outcome with
  | error => exact ⟨rfl, after⟩
  | ok a => exact rest a v v' after

theorem ensuring {m m' : Run σ α} {last last' : Run σ Unit}
    (body : m.Alike h caching m') (ends : last.Alike h caching last') :
    (ensuring m last).Alike h caching (ensuring m' last') := by
  intro w w' twins
  obtain ⟨same, after⟩ := body w w' twins
  obtain ⟨same', after'⟩ := ends _ _ after
  unfold Run.ensuring
  generalize m w = ended at same same' after'
  generalize m' w' = ended' at same same' after'
  obtain ⟨outcome, v⟩ := ended
  obtain ⟨outcome', v'⟩ := ended'
  dsimp only at same' after' ⊢
  generalize last v = left at same' after'
  generalize last' v' = left' at same' after'
  obtain ⟨closing, x⟩ := left
  obtain ⟨closing', x'⟩ := left'
  obtain rfl : outcome = outcome' := same
  obtain rfl : closing = closing' := same'
  cases closing <;> exact ⟨rfl, after'⟩

theorem of_common {m m' : Run σ α} (b : Run ν α)
    (first : ∀ w, ((m w).1, (m w).2.bare caching.visible) = b (w.bare caching.visible))
    (second : ∀ w, ((m' w).1, (m' w).2.bare caching.visible) = b (w.bare caching.visible))
    (keeps : ∀ w, w.Trusted h caching → (m w).2.Trusted h caching)
    (keeps' : ∀ w, w.Trusted h caching → (m' w).2.Trusted h caching) : m.Alike h caching m' := by
  intro w w' twins
  have equal := (first w).trans ((congrArg b twins.bare).trans (second w').symm)
  obtain ⟨outcome, bare⟩ := Prod.ext_iff.1 equal
  exact ⟨outcome, bare, keeps w twins.left, keeps' w' twins.right⟩

theorem of_bare {m : Run σ α} (b : Run ν α)
    (same : ∀ w, ((m w).1, (m w).2.bare caching.visible) = b (w.bare caching.visible))
    (keeps : ∀ w, w.Trusted h caching → (m w).2.Trusted h caching) : Blind h caching m :=
  of_common b same same keeps keeps

theorem scope_bind_fits (s : ScopeId) {f : Scope → Run σ α}
    (rest : ∀ x, x.Fits caching → (f x).Alike h caching (f x.uncached)) :
    Blind h caching (scope s >>= f) := by
  intro w w' twins
  have first := rest _ (twins.left.scopes s)
  have last := rest _ (twins.right.scopes s)
  rw [← twins.scope s] at last
  rw [bind_ok (scope_apply w s), bind_ok (scope_apply w' s)]
  exact first.trans last.symm w w' twins

theorem scope_bind (s : ScopeId) {f : Scope → Run σ α} (careless : ∀ x, f x = f x.uncached)
    (rest : ∀ x, Blind h caching (f x)) : Blind h caching (scope s >>= f) :=
  scope_bind_fits s fun x _ => careless x ▸ rest x

end Alike

section Primitives

variable (h : Host σ) (caching : Caching σ ν)

theorem context_blind (c : ContextId) : Blind h caching (context c) :=
  .of_bare (context c) (fun _ => rfl) fun _ => id

theorem classOf_blind (k : ClassId) : Blind h caching (classOf k) :=
  .of_bare (classOf k) (fun _ => rfl) fun _ => id

theorem functionOf_blind (f : FunctionId) : Blind h caching (functionOf f) :=
  .of_bare (functionOf f) (fun _ => rfl) fun _ => id

theorem constantOf_blind (k : ConstantId) : Blind h caching (constantOf k) :=
  .of_bare (constantOf k) (fun _ => rfl) fun _ => id

theorem moduleOf_blind (m : ModuleId) : Blind h caching (moduleOf m) :=
  .of_bare (moduleOf m) (fun _ => rfl) fun _ => id

theorem scopeOf_blind (c : ContextId) : Blind h caching (scopeOf c) :=
  .of_bare (scopeOf c) (fun _ => rfl) fun _ => id

theorem modifyContext_blind (c : ContextId) (f : Context → Context) :
    Blind h caching (modifyContext c f) :=
  .of_bare (modifyContext c f) (fun _ => rfl) fun _ trusted => ⟨trusted.scopes, trusted.entries⟩

theorem newTable_blind (t : Table Value) : Blind h caching (newTable t) :=
  .of_bare (newTable t) (fun _ => rfl) fun _ trusted => ⟨trusted.scopes, trusted.entries⟩

end Primitives

end Run

end ScriptHost
