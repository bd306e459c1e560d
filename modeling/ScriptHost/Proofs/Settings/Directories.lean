import ScriptHost.Proofs.Output.Cleaning
import ScriptHost.Proofs.Settings.Overlay

set_option autoImplicit false

namespace ScriptHost

open Run

variable {τ : Type}

namespace SearchPath

theorem directories_addAll_filter (p : SearchPath) (directories : List Bytes) :
    (p.addAll directories).directories =
      p.directories ++ (directories.filter (· ∉ p.directories)).eraseDups := by
  induction directories generalizing p with
  | nil => exact (List.append_nil _).symm
  | cons d rest ih =>
    show ((p.add d).addAll rest).directories = _
    rw [ih, directories_add]
    -- a directory that is new is taken out of the rest twice: as known and as a duplicate
    by_cases known : d ∈ p.directories
    · rw [if_pos known, List.filter_cons_of_neg (by simpa using known)]
    · have others : (rest.filter (· ∉ p.directories)).filter (fun e => !e == d) =
          rest.filter (· ∉ p.directories ++ [d]) := by
        rw [List.filter_filter]
        refine List.filter_congr fun e _ => ?_
        by_cases same : e = d <;> simp [same]
      rw [if_neg known, List.filter_cons_of_pos (by simpa using known), List.eraseDups_cons, others,
        List.append_assoc, List.singleton_append]

def listed (value : Option Bytes) : List Bytes :=
  ((Path.splitList (value.getD [])).filter (!·.isEmpty)).eraseDups

theorem directories_ofList_filter (directories : List Bytes) :
    (ofList directories).directories = (directories.filter (!·.isEmpty)).eraseDups := by
  have all : (directories.filter (!·.isEmpty)).filter (· ∉ empty.directories) =
      directories.filter (!·.isEmpty) := List.filter_eq_self.2 fun _ _ => rfl
  rw [ofList, directories_addAll_filter, all]
  rfl

theorem directories_ofList_listed {p : SearchPath} {value : Option Bytes}
    (same : p.directories = listed value) : (ofList p.directories).directories = listed value := by
  rw [directories_ofList, same, List.filter_eq_self]
  intro d member
  rw [listed, List.mem_eraseDups] at member
  exact (List.mem_filter.1 member).2

end SearchPath

namespace World

/-- The directories of the contexts of a scope are those that their include path lists. The scope has
no directories of its own, and the search path observes the include path and nothing else. -/
structure FollowsPath (w : World τ) (t : ScopeId) : Prop where
  housed : w.scopes.has t
  bare : (w.scopes.get t).includePaths = []
  observed : ∀ key, w.observers.get? key = some .searchPath ↔ key = "include_path"
  follows : ∀ c, w.contexts.has c → (w.context c).scope = t →
    (w.context c).searchPath.directories = SearchPath.listed (w.visible c "include_path")

variable {t : ScopeId} {w w' : World τ} {c : ContextId}

theorem visible_updateContext (f : Context → Context) (there : w.contexts.has c) :
    (w.updateContext c f).visible c =
      fun key => ((f (w.context c)).overrides.get? key).or
        (w.provided (f (w.context c)).scope key) := by
  funext key
  rw [visible, override, context_updateContext, if_pos ⟨rfl, there⟩]
  rfl

theorem visible_updateContext_of_ne {d : ContextId} (f : Context → Context) (other : c ≠ d) :
    (w.updateContext c f).visible d = w.visible d := by
  funext key
  rw [visible, override, context_updateContext, if_neg (other ·.1)]
  rfl

namespace FollowsPath

theorem observer (follows : w.FollowsPath t) :
    w.observers.get? "include_path" = some .searchPath := (follows.observed _).2 rfl

theorem updateContext (follows : w.FollowsPath t) (f : Context → Context)
    (scope : ∀ x, (f x).scope = x.scope)
    (own : w.contexts.has c → (w.context c).scope = t →
      (f (w.context c)).searchPath.directories = SearchPath.listed
        (((f (w.context c)).overrides.get? "include_path").or (w.provided t "include_path"))) :
    (w.updateContext c f).FollowsPath t where
  housed := follows.housed
  bare := follows.bare
  observed := follows.observed
  follows d there inside := by
    have known : w.contexts.has d := (w.has_updateContext c d f).symm.trans there
    by_cases same : c = d
    · subst same
      rw [context_updateContext, if_pos ⟨rfl, known⟩, scope] at inside
      rw [visible_updateContext f known, context_updateContext, if_pos ⟨rfl, known⟩, scope, inside]
      exact own known inside
    · rw [context_updateContext, if_neg (same ·.1)] at inside ⊢
      rw [visible_updateContext_of_ne f same]
      exact follows.follows d known inside

theorem inherit {p : ContextId} (follows : w.FollowsPath t) (known : w.contexts.has p)
    (shared : (w.context c).scope = (w.context p).scope)
    (clean : (w.override c "include_path").isSome → (w.override p "include_path").isSome)
    {f : Context → Context} (scope : ∀ x, (f x).scope = x.scope)
    (path : ∀ x, (f x).searchPath = .ofList (w.context p).searchPath.directories)
    (overrides : ∀ x, (f x).overrides = x.overrides.overlay (w.context p).overrides) :
    (w.updateContext c f).FollowsPath t := by
  refine follows.updateContext f scope fun _ inside => ?_
  rw [shared] at inside
  rw [path, overrides, Table.get?_overlay,
    SearchPath.directories_ofList_listed (follows.follows p known inside), visible, inside]
  -- a path of the parent covers any of the child, and without one the scope provides for both
  cases own : (w.context p).overrides.get? "include_path" with
  | some value => rw [override, own, Option.some_or, Option.some_or, Option.some_or]
  | none =>
    cases other : (w.context c).overrides.get? "include_path" with
    | some value =>
      rw [override, override, own, other] at clean
      cases clean rfl
    | none => rw [override, own, Option.none_or, Option.none_or, Option.none_or]

theorem congr {τ' : Type} {v : World τ'} (follows : w.FollowsPath t)
    (contexts : v.contexts = w.contexts) (observers : v.observers = w.observers)
    (scopes : v.scopes = w.scopes) : v.FollowsPath t := by
  cases v
  cases contexts
  cases observers
  cases scopes
  exact ⟨follows.housed, follows.bare, follows.observed, follows.follows⟩

theorem of_same (follows : w.FollowsPath t) (contexts : w'.contexts = w.contexts)
    (observed : ∀ key,
      w'.observers.get? key = some .searchPath ↔ w.observers.get? key = some .searchPath)
    (housed : w'.scopes.has t) (bare : (w'.scopes.get t).includePaths = (w.scopes.get t).includePaths)
    (provided : w'.provided t "include_path" = w.provided t "include_path") : w'.FollowsPath t where
  housed := housed
  bare := bare.trans follows.bare
  observed key := (observed key).trans (follows.observed key)
  follows c there inside := by
    have context : w'.context c = w.context c := congrArg (Pool.get · c) contexts
    rw [contexts] at there
    rw [context] at inside
    rw [context, visible, override, context, inside, provided, follows.follows c there inside, visible,
      override, inside]

end FollowsPath

end World

namespace World

structure LeavesSettings (w w' : World τ) : Prop where
  embedder : w'.embedder = w.embedder
  scopes : w'.scopes = w.scopes
  observers : w'.observers = w.observers
  has : ∀ c, w'.contexts.has c = w.contexts.has c
  scope : ∀ c, (w'.context c).scope = (w.context c).scope
  path : ∀ c, (w'.context c).searchPath = (w.context c).searchPath
  overrides : ∀ c, (w'.context c).overrides = (w.context c).overrides

variable {t : ScopeId} {u v w : World τ}

namespace LeavesSettings

theorem trans (first : u.LeavesSettings v) (rest : v.LeavesSettings w) : u.LeavesSettings w where
  embedder := rest.embedder.trans first.embedder
  scopes := rest.scopes.trans first.scopes
  observers := rest.observers.trans first.observers
  has c := (rest.has c).trans (first.has c)
  scope c := (rest.scope c).trans (first.scope c)
  path c := (rest.path c).trans (first.path c)
  overrides c := (rest.overrides c).trans (first.overrides c)

theorem updateContext (w : World τ) (c : ContextId) (f : Context → Context)
    (scope : ∀ x, (f x).scope = x.scope) (path : ∀ x, (f x).searchPath = x.searchPath)
    (overrides : ∀ x, (f x).overrides = x.overrides) : w.LeavesSettings (w.updateContext c f) where
  embedder := rfl
  scopes := rfl
  observers := rfl
  has d := w.has_updateContext c d f
  scope d := w.contexts.modify_keeps c d f Context.scope scope
  path d := w.contexts.modify_keeps c d f Context.searchPath path
  overrides d := w.contexts.modify_keeps c d f Context.overrides overrides

theorem visible (leaves : v.LeavesSettings w) (c : ContextId) : w.visible c = v.visible c := by
  funext key
  rw [World.visible, World.visible, World.override, World.override, World.provided, World.provided,
    leaves.scopes, leaves.scope, leaves.overrides]

theorem followsPath (leaves : v.LeavesSettings w) (follows : v.FollowsPath t) : w.FollowsPath t where
  housed := leaves.scopes ▸ follows.housed
  bare := leaves.scopes ▸ follows.bare
  observed := leaves.observers ▸ follows.observed
  follows c there inside := by
    rw [leaves.has] at there
    rw [leaves.scope] at inside
    rw [leaves.path, leaves.visible]
    exact follows.follows c there inside

end LeavesSettings

def furnish (w : World τ) (c : ContextId) (scope : Scope) : World τ :=
  w.updateContext c fun x => { x with
    searchPath := ((scope.defaults.get? "include_path").elim x.searchPath fun value =>
      .ofList (Path.splitList value)).addAll scope.includePaths }

theorem newcomer_furnished (w : World τ) (s : ScopeId) (sink : SinkId) :
    ((w.enlist s sink).furnish w.contexts.next (w.scopes.get s)).contexts.has w.contexts.next ∧
      (((w.enlist s sink).furnish w.contexts.next (w.scopes.get s)).context
        w.contexts.next).scope = s ∧
      (((w.enlist s sink).furnish w.contexts.next (w.scopes.get s)).context
        w.contexts.next).overrides = .empty := by
  have present : (w.enlist s sink).contexts.has w.contexts.next := Pool.has_next_add ..
  have made : (w.enlist s sink).context w.contexts.next = w.newcomer s sink := Pool.get_add_next ..
  refine ⟨(has_updateContext ..).trans present, ?_⟩
  rw [furnish, context_updateContext, if_pos ⟨rfl, present⟩, made]
  exact ⟨rfl, rfl⟩

theorem FollowsPath.enlist (follows : w.FollowsPath t) (s : ScopeId) (sink : SinkId) :
    ((w.enlist s sink).furnish w.contexts.next (w.scopes.get s)).FollowsPath t where
  housed := follows.housed
  bare := follows.bare
  observed := follows.observed
  follows c there inside := by
    have made : (w.enlist s sink).context w.contexts.next = w.newcomer s sink :=
      Pool.get_add_next ..
    have present : (w.enlist s sink).contexts.has w.contexts.next := Pool.has_next_add ..
    -- the new context gets the directories of its scope, which no override hides yet
    by_cases new : w.contexts.next = c
    · subst new
      rw [furnish, context_updateContext, if_pos ⟨rfl, present⟩, made] at inside
      obtain rfl : s = t := inside
      rw [furnish, visible_updateContext _ present, context_updateContext, if_pos ⟨rfl, present⟩, made]
      have bare := follows.bare
      show (SearchPath.addAll _ (w.scopes.get s).includePaths).directories =
        SearchPath.listed ((w.scopes.get s).defaults.get? "include_path")
      rw [bare]
      cases provided : (w.scopes.get s).defaults.get? "include_path" with
      | none => rfl
      | some value => exact SearchPath.directories_ofList_filter _
    · have known : w.contexts.has c := by
        rw [furnish, has_updateContext] at there
        exact Pool.has_of_has_add there (Ne.symm new)
      have kept : (w.enlist s sink).context c = w.context c := Pool.get_add_of_has _ _ known
      rw [furnish, context_updateContext, if_neg (new ·.1), kept] at inside ⊢
      rw [visible_updateContext_of_ne _ new, follows.follows c known inside, visible, override, visible,
        override, kept]
      rfl

end World

namespace Execution

theorem setUp_loads (h : Host τ) (c : ContextId) (scope : Scope) (options : ContextOptions)
    (w : World τ) : ∃ v, (w.furnish c scope).LeavesSettings v ∧
      setUp h c scope options w = loadExtensions h c scope.extensions v := by
  -- with and without a default for the include path, all goes on in the same way
  have begins : ∃ tail : Option FunctionId → Run τ Unit,
      setUp h c scope options w =
        (FunctionRegistry.fetch c fallbackFunction >>= tail) (w.furnish c scope) ∧
      tail none = (do
        Run.modifyContext c fun x => { x with
          diagnostics := { x.diagnostics with mask := options.mask.getD x.diagnostics.mask }
          shell := options.shell }
        loadExtensions h c scope.extensions) ∧
      ∀ f, tail (some f) = (do
        let key := (← Run.functionOf f).lowerName
        Run.modifyAutoload c fun a => { a with fallback := some ⟨key, .function f⟩ }
        Run.modifyContext c fun x => { x with
          diagnostics := { x.diagnostics with mask := options.mask.getD x.diagnostics.mask }
          shell := options.shell }
        loadExtensions h c scope.extensions) := by
    cases provided : scope.defaults.get? "include_path" with
    | none =>
      rw [setUp, provided, World.furnish, provided]
      dsimp only
      rw [bind_ok (modifyContext_apply w c _)]
      exact ⟨_, rfl, rfl, fun _ => rfl⟩
    | some value =>
      have followed : Settings.followIncludePath c (some value) w = (.ok (), w.updateContext c
        fun x => { x with searchPath := .ofList (Path.splitList value) }) := rfl
      have twice := w.updateContext_updateContext c
        (fun x => { x with searchPath := .ofList (Path.splitList value) })
        (fun x => { x with searchPath := x.searchPath.addAll scope.includePaths })
      rw [setUp, provided, World.furnish, provided]
      simp only [Option.elim_some]
      rw [← twice, bind_ok followed, bind_ok (modifyContext_apply _ c _)]
      exact ⟨_, rfl, rfl, fun _ => rfl⟩
  obtain ⟨tail, begun, absent, present⟩ := begins
  have own (x : World τ) (f : Context → Context) (scope : ∀ y, (f y).scope = y.scope)
      (path : ∀ y, (f y).searchPath = y.searchPath)
      (overrides : ∀ y, (f y).overrides = y.overrides) :=
    World.LeavesSettings.updateContext x c f scope path overrides
  rw [begun]
  obtain ⟨f, -, found⟩ | ⟨-, found⟩ | ⟨f, -, -, found⟩ :=
    FunctionRegistry.fetch_cases c fallbackFunction (w.furnish c scope) <;> rw [bind_ok found]
  · rw [present]
    refine ⟨_, .trans (own _ _ ?_ ?_ ?_) (own _ _ ?_ ?_ ?_), rfl⟩ <;> exact fun _ => rfl
  · rw [absent]
    refine ⟨_, own _ _ ?_ ?_ ?_, rfl⟩ <;> exact fun _ => rfl
  · rw [present]
    refine ⟨_, .trans (own _ _ ?_ ?_ ?_) (.trans (own _ _ ?_ ?_ ?_) (own _ _ ?_ ?_ ?_)), rfl⟩ <;>
      exact fun _ => rfl

end Execution

end ScriptHost
