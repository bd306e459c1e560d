import ScriptHost.Proofs.Output.Closure
import ScriptHost.Proofs.Settings.Directories

set_option autoImplicit false

namespace ScriptHost

open Run

variable {σ : Type}

/-- Whether it is fine that an extension has been loaded. It is not if it has left an include path of
its own in a child whose parent has none: the child gets the directories of the parent, but keeps the
setting. -/
def Moment.isClean (m : Moment σ) : Bool :=
  match m.event, m.running.head? with
  | .answered (.loadExtension _ c) (.ok _), some (.newChild p _) =>
    (m.world.override c "include_path").isNone || (m.world.override p "include_path").isSome
  | _, _ => true

def Follow (t : ScopeId) : List (Moment σ) → Prop
  | [] => True
  | m :: later => m.world.FollowsPath t ∧ (m.isClean → Follow t later)

theorem follow_append {t : ScopeId} {early late : List (Moment σ)} (first : Follow t early)
    (rest : (∀ m ∈ early, m.isClean) → Follow t late) : Follow t (early ++ late) := by
  induction early with
  | nil => exact rest fun _ member => nomatch member
  | cons m early ih =>
    -- past a moment that is not clean nothing is claimed, so the rest may assume all are
    refine ⟨first.1, fun clean => ih (first.2 clean) fun others => rest ?_⟩
    exact List.forall_mem_cons.2 ⟨clean, others⟩

theorem Follow.at {t : ScopeId} {before after : List (Moment σ)} {m : Moment σ}
    (follow : Follow t (before ++ m :: after)) (clean : ∀ x ∈ before, x.isClean) :
    m.world.FollowsPath t := by
  induction before with
  | nil => exact follow.1
  | cons x before ih =>
    obtain ⟨first, others⟩ := List.forall_mem_cons.1 clean
    exact ih (follow.2 first) others

namespace World

structure Proceeds (w w' : Recorded σ) : Prop where
  running : w'.embedder.running = w.embedder.running
  journal : w.embedder.journal <+: w'.embedder.journal
  contexts : ∀ c, w.contexts.has c →
    w'.contexts.has c ∧ (w'.context c).scope = (w.context c).scope

structure KeepsPath (t : ScopeId) (w w' : Recorded σ) : Prop extends w.Proceeds w' where
  told : w.FollowsPath t → Follow t (w.since w')
  ended : w.FollowsPath t → (∀ m ∈ w.since w', m.isClean) → w'.FollowsPath t

variable {t : ScopeId} {u v w : Recorded σ} {c : ContextId}

namespace Proceeds

theorem refl (w : Recorded σ) : w.Proceeds w := ⟨rfl, List.prefix_rfl, fun _ there => ⟨there, rfl⟩⟩

theorem trans (first : u.Proceeds v) (rest : v.Proceeds w) : u.Proceeds w where
  running := rest.running.trans first.running
  journal := first.journal.trans rest.journal
  contexts c there := by
    obtain ⟨known, same⟩ := first.contexts c there
    exact (rest.contexts c known).imp_right (·.trans same)

theorem of_same (embedder : w.embedder = v.embedder)
    (contexts : ∀ c, v.contexts.has c → w.contexts.has c ∧ (w.context c).scope = (v.context c).scope) :
    v.Proceeds w :=
  ⟨congrArg Ledger.running embedder, embedder ▸ List.prefix_rfl, contexts⟩

theorem updateContext (w : Recorded σ) (c : ContextId) (f : Context → Context)
    (scope : ∀ x, (f x).scope = x.scope) : w.Proceeds (w.updateContext c f) :=
  .of_same rfl fun d there => ⟨(w.has_updateContext c d f).trans there,
    w.contexts.modify_keeps c d f Context.scope scope⟩

end Proceeds

namespace KeepsPath

theorem silent (proceeds : v.Proceeds w) (journal : w.embedder.journal = v.embedder.journal)
    (ended : v.FollowsPath t → w.FollowsPath t) : v.KeepsPath t w := by
  have nothing : v.since w = [] := since_append (journal.trans (List.append_nil _).symm)
  refine ⟨proceeds, fun _ => ?_, fun follows _ => ended follows⟩
  rw [nothing]
  trivial

theorem refl (w : Recorded σ) : w.KeepsPath t w := .silent (.refl w) rfl id

theorem trans (first : u.KeepsPath t v) (rest : v.KeepsPath t w) : u.KeepsPath t w := by
  have since : u.since w = u.since v ++ v.since w := since_trans first.journal rest.journal
  refine ⟨first.toProceeds.trans rest.toProceeds, fun follows => ?_, fun follows clean => ?_⟩
  · rw [since]
    exact follow_append (first.told follows) fun clean => rest.told (first.ended follows clean)
  · rw [since] at clean
    obtain ⟨early, late⟩ := List.forall_mem_append.1 clean
    exact rest.ended (first.ended follows early) late

theorem note (w : Recorded σ) (event : Event) : w.KeepsPath t (w.note event) := by
  have last : w.since (w.note event) = [⟨event, w.embedder.running, w.unrecorded⟩] :=
    since_append rfl
  refine ⟨⟨rfl, List.prefix_append _ _, fun _ there => ⟨there, rfl⟩⟩, fun follows => ?_,
    fun follows _ => follows.congr rfl rfl rfl⟩
  rw [last]
  exact ⟨follows.congr rfl rfl rfl, fun _ => trivial⟩

theorem of_not (proceeds : v.Proceeds w) (unfollowed : ¬ v.FollowsPath t) : v.KeepsPath t w :=
  ⟨proceeds, fun follows => absurd follows unfollowed, fun follows => absurd follows unfollowed⟩

theorem concluded (first : u.KeepsPath t v) (proceeds : v.Proceeds w)
    (journal : w.embedder.journal = v.embedder.journal)
    (ended : v.FollowsPath t → (∀ m ∈ u.since v, m.isClean) → w.FollowsPath t) :
    u.KeepsPath t w := by
  have since : u.since w = u.since v := by rw [World.since, World.since, journal]
  refine ⟨first.toProceeds.trans proceeds, fun follows => ?_, fun follows clean => ?_⟩
  · rw [since]
    exact first.told follows
  · rw [since] at clean
    exact ended (first.ended follows clean) clean

theorem updateContext (w : Recorded σ) (c : ContextId) {f : Context → Context}
    (scope : ∀ x, (f x).scope = x.scope) (path : ∀ x, (f x).searchPath = x.searchPath)
    (settings : ∀ x, (f x).overrides.get? "include_path" = x.overrides.get? "include_path") :
    w.KeepsPath t (w.updateContext c f) := by
  refine .silent (.updateContext w c f scope) rfl fun follows =>
    follows.updateContext f scope fun there inside => ?_
  rw [path, settings, follows.follows c there inside, visible, override, inside]

end KeepsPath

end World

def Run.KeepsPath {α : Type} (t : ScopeId) (m : Run (Ledger σ) α) : Prop :=
  ∀ w : Recorded σ, w.KeepsPath t (m w).2

namespace Run.KeepsPath

variable {α β : Type} {t : ScopeId}

theorem of_read {m : Run (Ledger σ) α} (same : ∀ w, (m w).2 = w) : Run.KeepsPath t m := fun w => by
  rw [same]
  exact .refl w

theorem pure (a : α) : Run.KeepsPath t (Pure.pure a : Run (Ledger σ) α) :=
  .of_read fun _ => rfl

theorem bind {m : Run (Ledger σ) α} {f : α → Run (Ledger σ) β} (first : Run.KeepsPath t m)
    (rest : ∀ a, Run.KeepsPath t (f a)) : Run.KeepsPath t (m >>= f) := fun w => by
  have kept := first w
  rw [bind_apply]
  rcases result : m w with ⟨signal | a, u⟩ <;> rw [result] at kept
  · exact kept
  · exact kept.trans (rest a u)

theorem own {c : ContextId} {f : Context → Context} (scope : ∀ x, (f x).scope = x.scope)
    (path : ∀ x, (f x).searchPath = x.searchPath) (settings : ∀ x, (f x).overrides = x.overrides) :
    Run.KeepsPath t (modifyContext c f : Run (Ledger σ) Unit) := fun w =>
  .updateContext w c scope path fun x => congrArg (Table.get? · _) (settings x)

theorem isClosed (c : ContextId) :
    Run.IsClosed c fun α (m : Run (Ledger σ) α) => Run.KeepsPath t m where
  pure := .pure
  bind := .bind
  context := .of_read fun _ => rfl
  modifyStack _ _ := .own (fun _ => rfl) (fun _ => rfl) fun _ => rfl
  onSink _ _ := .silent (.of_same rfl fun _ there => ⟨there, rfl⟩) rfl fun follows =>
    follows.congr rfl rfl rfl

end Run.KeepsPath

def Host.KeepsPath (h : Host (Ledger σ)) (t : ScopeId) : Prop :=
  ∀ call, ∃ body : Run (Ledger σ) call.Answer, h.answer call = call.recorded body ∧
    Run.KeepsPath t body

theorem Host.KeepsPath.answer {h : Host (Ledger σ)} {t : ScopeId} (keeps : h.KeepsPath t)
    (call : Call) : Run.KeepsPath t (h.answer call) := fun w => by
  obtain ⟨body, same, kept⟩ := keeps call
  rw [same, Call.recorded_snd]
  exact (World.KeepsPath.note w _).trans ((kept _).trans (.note _ _))

section Settings

variable {h : Host (Ledger σ)} {t : ScopeId} (keeps : h.KeepsPath t) (c : ContextId)
include keeps

namespace Settings

theorem notify_keepsPath {key : Bytes} (other : key ≠ "include_path") (value : Option Bytes) :
    Run.KeepsPath t (notify h c key value) := fun w => by
  rw [notify_apply]
  split
  next => exact .refl w
  next path =>
    refine .of_not (.updateContext w c _ fun _ => rfl) fun follows => ?_
    exact other ((follows.observed key).1 path)
  next k _ => exact keeps.answer (.settingChanged k c value) w

theorem set_keepsPath (key : Bytes) (v : Value) : Run.KeepsPath t (set h c key v) := fun w => by
  have stored (u : Recorded σ) : u.Proceeds (u.storeSetting c key (w.textOf v)) :=
    .updateContext u c _ fun _ => rfl
  rw [set_apply]
  by_cases path : key = "include_path"
  · subst path
    rw [notify_apply]
    -- where the search path is not the observer, no context is claimed to follow
    rcases observer : w.observers.get? "include_path" with _ | _ | k
    case none =>
      refine .of_not (stored w) fun follows => ?_
      rw [follows.observer] at observer
      cases observer
    case some.searchPath =>
      dsimp only
      -- in between the directories are ahead of the setting, but nobody is called to see it
      rw [World.storeSetting, World.updateContext_updateContext]
      refine .silent (.updateContext w c _ fun _ => rfl) rfl fun follows =>
        follows.updateContext _ (fun _ => rfl) fun _ _ => ?_
      dsimp only
      rw [Table.get?_insert, if_pos rfl, SearchPath.directories_ofList_filter]
      rfl
    case some.callback =>
      have unfollowed : ¬ w.FollowsPath t := fun follows => by
        rw [follows.observer] at observer
        cases observer
      have told := (keeps.answer (.settingChanged k c (some (w.textOf v))) w).toProceeds
      dsimp only
      rcases result : h.settingChanged k c (some (w.textOf v)) w with ⟨signal | _, u⟩ <;>
        rw [show h.answer (.settingChanged k c (some (w.textOf v))) w = _ from result] at told
      · exact .of_not told unfollowed
      · exact .of_not (told.trans (stored u)) unfollowed
  · have told := notify_keepsPath keeps c path (some (w.textOf v)) w
    rcases result : notify h c key (some (w.textOf v)) w with ⟨signal | _, u⟩ <;> rw [result] at told
    · exact told
    · refine told.trans (.updateContext u c (fun _ => rfl) (fun _ => rfl) fun x => ?_)
      rw [Table.get?_insert, if_neg (Ne.symm path)]

theorem restore_keepsPath (key : Bytes) : Run.KeepsPath t (restore h c key) := fun w => by
  have dropped : w.Proceeds (w.dropSetting c key) := .updateContext w c _ fun _ => rfl
  rw [restore_apply]
  by_cases path : key = "include_path"
  · subst path
    rw [notify_apply]
    rcases observer : (w.dropSetting c "include_path").observers.get? "include_path" with _ | _ | k
    case none =>
      refine .of_not dropped fun follows => ?_
      rw [show (w.dropSetting c _).observers = w.observers from rfl, follows.observer] at observer
      cases observer
    case some.searchPath =>
      have visible (there : w.contexts.has c) : (w.dropSetting c "include_path").visible c =
          fun k => (((w.context c).overrides.erase "include_path").get? k).or
            (w.provided (w.context c).scope k) := World.visible_updateContext _ there
      dsimp only
      -- the value is that of the world without the setting, which the rewriting must leave alone
      generalize shown : (w.dropSetting c "include_path").visible c "include_path" = value
      rw [World.dropSetting, World.updateContext_updateContext]
      refine .silent (.updateContext w c _ fun _ => rfl) rfl fun follows =>
        follows.updateContext _ (fun _ => rfl) fun there inside => ?_
      rw [visible there, inside] at shown
      dsimp only
      rw [SearchPath.directories_ofList_filter]
      exact congrArg SearchPath.listed shown.symm
    case some.callback =>
      have told := (keeps.answer (.settingChanged k c ((w.dropSetting c "include_path").visible c
        "include_path")) (w.dropSetting c "include_path")).toProceeds
      refine .of_not (dropped.trans told) fun follows => ?_
      rw [show (w.dropSetting c _).observers = w.observers from rfl, follows.observer] at observer
      cases observer
  · refine World.KeepsPath.trans ?_ (notify_keepsPath keeps c path _ (w.dropSetting c key))
    refine .updateContext w c (fun _ => rfl) (fun _ => rfl) fun x => ?_
    rw [Table.get?_erase, if_neg (Ne.symm path)]

end Settings

end Settings

theorem World.LeavesSettings.keepsPath {t : ScopeId} {v w : Recorded σ} (leaves : v.LeavesSettings w) :
    v.KeepsPath t w :=
  .silent (.of_same leaves.embedder fun c there => ⟨(leaves.has c).trans there, leaves.scope c⟩)
    (congrArg Ledger.journal leaves.embedder) leaves.followsPath

namespace Execution

section Making

variable {h : Host (Ledger σ)} {t : ScopeId} (keeps : h.KeepsPath t) (c : ContextId)
include keeps

theorem loadExtensions_keepsPath (extensions : List Callback) :
    Run.KeepsPath t (loadExtensions h c extensions) := by
  induction extensions with
  | nil => exact .pure _
  | cons k rest ih => exact .bind (keeps.answer (.loadExtension k c)) fun _ => ih

theorem loadExtensions_last {extensions : List Callback} (any : extensions ≠ []) {v w : Recorded σ}
    (loaded : loadExtensions h c extensions v = (.ok (), w)) :
    ∃ m ∈ v.since w, (∃ k, m.event = .answered (.loadExtension k c) (.ok ())) ∧
      m.running = v.embedder.running ∧ ∀ d key, m.world.override d key = w.override d key := by
  induction extensions generalizing v with
  | nil => exact absurd rfl any
  | cons k rest ih =>
    obtain ⟨body, recorded, kept⟩ := keeps (.loadExtension k c)
    rw [loadExtensions] at loaded
    obtain ⟨_, u, first, others⟩ := of_bind_ok loaded
    have onward := keeps.answer (.loadExtension k c) v
    rw [show h.answer (.loadExtension k c) v = (.ok (), u) from first] at onward
    cases rest with
    | nil =>
      -- its answer is the last that is on record
      cases others
      rw [show h.loadExtension k c v = h.answer (.loadExtension k c) v from rfl, recorded] at first
      have called := World.KeepsPath.note (t := t) v (.called (.loadExtension k c))
      have inner := kept (v.note (.called (.loadExtension k c)))
      rcases ended : body (v.note (.called (.loadExtension k c))) with ⟨outcome, x⟩
      rw [Call.recorded, ended] at first
      rw [ended] at inner
      cases first
      have last : x.since (x.note (.answered (.loadExtension k c) (.ok ()))) =
          [⟨.answered (.loadExtension k c) (.ok ()), x.embedder.running, x.unrecorded⟩] :=
        World.since_append rfl
      refine ⟨⟨_, x.embedder.running, x.unrecorded⟩, ?_, ⟨k, rfl⟩, inner.running, fun _ _ => rfl⟩
      rw [World.since_trans (called.trans inner).journal (List.prefix_append _ _), last]
      exact List.mem_append_right _ (List.mem_singleton_self _)
    | cons k' rest =>
      obtain ⟨m, member, event, running, settings⟩ := ih (by simp) others
      refine ⟨m, ?_, event, running.trans onward.running, settings⟩
      have later := loadExtensions_keepsPath keeps c (k' :: rest) u
      rw [others] at later
      rw [World.since_trans onward.journal later.journal]
      exact List.mem_append_right _ member

omit keeps in
theorem create_loads (h : Host (Ledger σ)) (s : ScopeId) (sink : SinkId) (options : ContextOptions)
    (w : Recorded σ) : ∃ v : Recorded σ,
      ((w.enlist s sink).furnish w.contexts.next (w.scopes.get s)).LeavesSettings v ∧
      create h s sink options w =
        (do loadExtensions h w.contexts.next (w.scopes.get s).extensions
            return w.contexts.next : Run (Ledger σ) ContextId) v := by
  obtain ⟨v, leaves, loads⟩ := setUp_loads h w.contexts.next (w.scopes.get s) options (w.enlist s sink)
  refine ⟨v, leaves, ?_⟩
  have rest : create h s sink options w =
      (setUp h w.contexts.next (w.scopes.get s) options >>= fun _ => pure w.contexts.next)
        (w.enlist s sink) := rfl
  rw [rest, bind_apply, loads, bind_apply]

omit keeps in
theorem enlist_keepsPath (w : Recorded σ) (s : ScopeId) (sink : SinkId) :
    w.KeepsPath t ((w.enlist s sink).furnish w.contexts.next (w.scopes.get s)) := by
  refine .silent (.of_same rfl fun d there => ?_) rfl fun follows => follows.enlist s sink
  have kept : (w.enlist s sink).context d = w.context d := Pool.get_add_of_has _ _ there
  refine ⟨(World.has_updateContext ..).trans (Pool.has_add _ _ _ there), ?_⟩
  rw [World.furnish, World.context_updateContext,
    if_neg fun same => Pool.ne_next_of_has _ there same.1.symm, kept]

theorem create_keepsPath (s : ScopeId) (sink : SinkId) (options : ContextOptions) :
    Run.KeepsPath t (create h s sink options) := fun w => by
  obtain ⟨v, leaves, loads⟩ := create_loads h s sink options w
  rw [loads]
  refine (enlist_keepsPath w s sink).trans (leaves.keepsPath.trans ?_)
  exact Run.KeepsPath.bind (loadExtensions_keepsPath keeps _ _) (fun _ => .pure _) v

theorem raiseText_keepsPath (severity : Severity) (trace : Trace) (text : Bytes) :
    Run.KeepsPath t (Diagnostics.raiseText h c severity trace text) :=
  Diagnostics.raiseText_closed (Run.KeepsPath.isClosed c)
    (fun k chunk mode => keeps.answer (.filterOutput k c chunk mode))
    (fun k m => keeps.answer (.handleError k c m)) (fun k m => keeps.answer (.reportError k c m))
    (fun _ => .own (fun _ => rfl) (fun _ => rfl) fun _ => rfl) (fun _ => .of_read fun _ => rfl)
    severity trace text

theorem enter_keepsPath (k : ClassId) : Run.KeepsPath t (ClassRegistry.enter h c k) := fun w => by
  have inserted : w.LeavesSettings (w.insertClass c k) :=
    .updateContext w c _ (fun _ => rfl) (fun _ => rfl) fun _ => rfl
  cases own : (w.classes.get k).onEnter with
  | none =>
    rw [ClassRegistry.enter_hookless h c w own]
    exact inserted.keepsPath
  | some hook =>
    rw [ClassRegistry.enter_hook h c w own]
    refine inserted.keepsPath.trans (Run.KeepsPath.bind (keeps.answer (.enterClass hook c))
      (fun failure => ?_) (w.insertClass c k))
    cases failure with
    | none => exact .pure _
    | some f =>
      exact .bind (.own (fun _ => rfl) (fun _ => rfl) fun _ => rfl) fun _ =>
        raiseText_keepsPath keeps c _ _ _

theorem enterClasses_keepsPath (classes : List ClassId) :
    Run.KeepsPath t (enterClasses h c classes) := by
  induction classes with
  | nil => exact .pure _
  | cons k rest ih => exact .bind (enter_keepsPath keeps c k) fun _ => ih

omit c in
theorem create_clean {parent c : ContextId} {sink : SinkId} {options : ContextOptions}
    {w u : Recorded σ} (known : w.contexts.has parent)
    (running : w.embedder.running.head? = some (.newChild parent options))
    (created : create h (w.context parent).scope sink options w = (.ok c, u)) :
    c = w.contexts.next ∧
      (u.contexts.has parent ∧ (u.context c).scope = (u.context parent).scope) ∧
      ((∀ m ∈ w.since u, m.isClean) →
        (u.override c "include_path").isSome → (u.override parent "include_path").isSome) := by
  obtain ⟨v, leaves, loads⟩ := create_loads h (w.context parent).scope sink options w
  rw [loads] at created
  obtain ⟨_, _, loaded, last⟩ := of_bind_ok created
  cases last
  have enlisted := enlist_keepsPath (t := t) w (w.context parent).scope sink
  have extended := loadExtensions_keepsPath keeps w.contexts.next
    (w.scopes.get (w.context parent).scope).extensions v
  rw [loaded] at extended
  obtain ⟨present, scope, bare⟩ := w.newcomer_furnished (w.context parent).scope sink
  have journal : w.since u = v.since u := by
    rw [World.since, World.since, leaves.embedder]
    rfl
  refine ⟨rfl, ⟨?_, ?_⟩, fun fine held => ?_⟩
  · exact (enlisted.trans (leaves.keepsPath.trans extended)).contexts parent known |>.1
  · rw [((leaves.keepsPath.trans extended).contexts _ present).2, scope,
      ((enlisted.trans (leaves.keepsPath.trans extended)).contexts parent known).2]
  · -- a new context has set nothing, so only an extension can have left an include path
    by_cases any : (w.scopes.get (w.context parent).scope).extensions = []
    · rw [any] at loaded
      cases loaded
      rw [World.override, leaves.overrides, bare] at held
      cases held
    · obtain ⟨m, member, ⟨k, event⟩, same, settings⟩ := loadExtensions_last keeps _ any loaded
      have top : m.running.head? = some (.newChild parent options) := by
        rw [same, leaves.embedder]
        exact running
      have clean := fine m (journal ▸ member)
      rw [Moment.isClean, event, top] at clean
      simp only [settings, Bool.or_eq_true, Option.isNone_iff_eq_none] at clean
      rcases clean with none | some
      · rw [none] at held
        cases held
      · exact some

omit c in
theorem createChild_keepsPath {parent : ContextId} {options : ContextOptions} {w : Recorded σ}
    (known : w.contexts.has parent)
    (running : w.embedder.running.head? = some (.newChild parent options)) :
    w.KeepsPath t (createChild h parent options w).2 := by
  have made := create_keepsPath keeps (w.context parent).scope (w.context parent).output.sink options w
  rw [createChild, bind_ok (context_apply w parent), bind_apply]
  rcases created : create h (w.context parent).scope (w.context parent).output.sink options w with
    ⟨signal | c, u⟩ <;> rw [created] at made
  · exact made
  obtain ⟨rfl, family, clean⟩ := create_clean keeps known running created
  dsimp only
  rw [bind_ok (context_apply u parent), bind_ok (modifyContext_apply u _ _)]
  -- the child takes over from its parent first, and hooks of classes run after that
  refine World.KeepsPath.trans (v := u.updateContext w.contexts.next _) ?_
    (Run.KeepsPath.bind (.of_read fun _ => rfl) (fun classes =>
      .bind (enterClasses_keepsPath keeps _ classes) fun _ => .pure _) _)
  refine made.concluded (.updateContext u _ _ fun _ => rfl) rfl fun follows fine => ?_
  exact follows.inherit family.1 family.2 (clean fine) (fun _ => rfl) (fun _ => rfl) fun _ => rfl

end Making

end Execution

def Operation.Configures (t : ScopeId) : Operation → Prop
  | act _ (.setSetting ..) | act _ (.restoreSetting ..) | newContext .. | newChild .. => True
  | setDefault s key _ => ¬(s = t ∧ key = "include_path")
  | observe key _ => key ≠ "include_path"
  | newAllocator | newTable _ | newSink _ | newScope _ | newClass _ | newFunction _ | newConstant _
  | declareClass .. | declareFunction .. | declareConstant .. => True
  | _ => False

namespace World.KeepsPath

variable {t : ScopeId} {v w : Recorded σ}

theorem apart (embedder : w.embedder = v.embedder) (contexts : w.contexts = v.contexts)
    (observed : ∀ key,
      w.observers.get? key = some .searchPath ↔ v.observers.get? key = some .searchPath)
    (scope : v.scopes.has t → w.scopes.has t ∧
      (w.scopes.get t).includePaths = (v.scopes.get t).includePaths ∧
      w.provided t "include_path" = v.provided t "include_path") : v.KeepsPath t w := by
  have proceeds : v.Proceeds w := .of_same embedder fun c there => by
    rw [World.context, World.context, contexts]
    exact ⟨there, rfl⟩
  refine .silent proceeds (congrArg Ledger.journal embedder) fun follows => ?_
  obtain ⟨housed, bare, provided⟩ := scope follows.housed
  exact follows.of_same contexts observed housed bare provided

theorem updateScope (w : Recorded σ) (s : ScopeId) {f : Scope → Scope}
    (paths : ∀ x, (f x).includePaths = x.includePaths)
    (defaults : s = t → ∀ x, (f x).defaults.get? "include_path" = x.defaults.get? "include_path") :
    w.KeepsPath t (w.updateScope s f) := by
  refine .apart rfl rfl (fun _ => .rfl) fun housed => ⟨(w.scopes.has_modify ..).trans housed,
    w.scopes.modify_keeps s t f Scope.includePaths paths, ?_⟩
  show ((w.scopes.modify s f).get t).defaults.get? _ = _
  rw [Pool.get_modify]
  split
  next same => exact defaults same.1 _
  next => rfl

end World.KeepsPath

section Requests

variable {h : Host (Ledger σ)} {t : ScopeId} (keeps : h.KeepsPath t)

theorem Settings.observe_keepsPath {key : Bytes} (other : key ≠ "include_path")
    (k : Option Callback) : Run.KeepsPath t (observe key k : Run (Ledger σ) Unit) := fun w => by
  have replaced {observers : Table Observer} {observer : Option Observer}
      (callback : observer ≠ some .searchPath)
      (each : ∀ q, observers.get? q = if q = key then observer else w.observers.get? q) :
      w.KeepsPath t { w with observers } := by
    refine .silent (.of_same rfl fun _ there => ⟨there, rfl⟩) rfl fun follows =>
      ⟨follows.housed, follows.bare, fun q => ?_, follows.follows⟩
    show observers.get? q = _ ↔ _
    rw [each]
    split
    next same => exact ⟨fun path => absurd path callback, fun path => absurd (same ▸ path) other⟩
    next => exact follows.observed q
  cases k with
  | none => exact replaced (by simp) fun q => Table.get?_erase ..
  | some k => exact replaced (by simp) fun q => Table.get?_insert ..

namespace ScopeRegistry

theorem setDefault_keepsPath {s : ScopeId} {key : Bytes} (other : ¬(s = t ∧ key = "include_path"))
    (v : Value) : Run.KeepsPath t (setDefault s key v : Run (Ledger σ) Unit) := fun w => by
  rw [setDefault, bind_ok (w.textOf_apply v)]
  refine .updateScope w s (fun _ => rfl) fun same x => ?_
  rw [Table.get?_insert, if_neg fun path => other ⟨same, path.symm⟩]

theorem declareClass_keepsPath (s : ScopeId) (k : ClassId) :
    Run.KeepsPath t (declareClass s k : Run (Ledger σ) _) := fun w => by
  have marked (classes : Classes) : w.KeepsPath t { w with classes } :=
    .apart rfl rfl (fun _ => .rfl) fun housed => ⟨housed, rfl, rfl⟩
  unfold declareClass
  simp only [bind_apply, modify_apply, classOf_apply, scope_apply]
  split
  next => exact marked _
  next => exact (marked _).trans (.updateScope _ s (fun _ => rfl) fun _ _ => rfl)

theorem declareFunction_keepsPath (s : ScopeId) (f : FunctionId) :
    Run.KeepsPath t (declareFunction s f : Run (Ledger σ) _) := fun w => by
  have marked (functions : Pool .functions Function) : w.KeepsPath t { w with functions } :=
    .apart rfl rfl (fun _ => .rfl) fun housed => ⟨housed, rfl, rfl⟩
  unfold declareFunction
  simp only [bind_apply, modify_apply, functionOf_apply, scope_apply]
  split
  next => exact marked _
  next => exact (marked _).trans (.updateScope _ s (fun _ => rfl) fun _ _ => rfl)

theorem declareConstant_keepsPath (s : ScopeId) (k : ConstantId) :
    Run.KeepsPath t (declareConstant s k : Run (Ledger σ) _) := fun w => by
  rw [declareConstant, bind_ok (constantOf_apply w k), bind_ok (scope_apply w s)]
  dsimp only
  split
  next => exact .refl w
  next => exact .updateScope w s (fun _ => rfl) fun _ _ => rfl

end ScopeRegistry

include keeps

theorem Operation.request_keepsPath {o : Operation} (permitted : o.Configures t) (w : Recorded σ) :
    (w.begin o).KeepsPath t (o.request h (w.begin o)).2 := by
  unfold request
  split
  next grounded =>
    cases o with
    | act c a =>
      cases a with
      | setSetting key v => exact Settings.set_keepsPath keeps c key v _
      | restoreSetting key => exact Settings.restore_keepsPath keeps c key _
      | _ => cases permitted
    | newContext s sink options => exact Execution.create_keepsPath keeps s sink options _
    | newChild p options => exact Execution.createChild_keepsPath keeps grounded rfl
    | setDefault s key v =>
      exact ScopeRegistry.setDefault_keepsPath permitted v _
    | observe key k => exact Settings.observe_keepsPath permitted k _
    | newAllocator | newTable | newSink | newClass | newFunction | newConstant =>
      exact .apart rfl rfl (fun _ => .rfl) fun housed => ⟨housed, rfl, rfl⟩
    | newScope s =>
      refine .apart rfl rfl (fun _ => .rfl) fun housed => ⟨Pool.has_add _ _ _ housed, ?_, ?_⟩
      · exact congrArg Scope.includePaths (Pool.get_add_of_has _ _ housed)
      · exact congrArg (fun x : Scope => x.defaults.get? "include_path")
          (Pool.get_add_of_has _ _ housed)
    | declareClass s k => exact ScopeRegistry.declareClass_keepsPath s k _
    | declareFunction s f => exact ScopeRegistry.declareFunction_keepsPath s f _
    | declareConstant s k => exact ScopeRegistry.declareConstant_keepsPath s k _
    | _ => cases permitted
  next => exact .refl _

end Requests

theorem World.KeepsPath.operation {t : ScopeId} {w v : Recorded σ} {o : Operation}
    (inner : (w.begin o).KeepsPath t v) (outcome : Except Signal o.Result) :
    w.KeepsPath t (v.finish w.embedder.running o outcome) := by
  have begun (follows : w.FollowsPath t) : (w.begin o).FollowsPath t :=
    follows.congr rfl rfl rfl
  have last : World.since { v with embedder := { v.embedder with running := w.embedder.running } }
      (v.finish w.embedder.running o outcome) =
        [⟨.finished o outcome, w.embedder.running, v.unrecorded⟩] := World.since_append rfl
  have whole : w.since (v.finish w.embedder.running o outcome) = (w.begin o).since v ++
      [⟨.finished o outcome, w.embedder.running, v.unrecorded⟩] := by
    rw [← last]
    exact World.since_trans (u := w) (v := { v with
      embedder := { v.embedder with running := w.embedder.running } }) inner.journal
        (List.prefix_append _ _)
  refine ⟨⟨rfl, inner.journal.trans (List.prefix_append _ _), inner.contexts⟩, fun follows => ?_,
    fun follows clean => ?_⟩
  · rw [whole]
    refine follow_append (inner.told (begun follows)) fun clean => ⟨?_, fun _ => trivial⟩
    exact (inner.ended (begun follows) clean).congr rfl rfl rfl
  · rw [whole] at clean
    exact (inner.ended (begun follows) (List.forall_mem_append.1 clean).1).congr rfl rfl rfl

theorem Code.run_keepsPath {ρ : Type} {h : Host (Ledger σ)} {t : ScopeId} (keeps : h.KeepsPath t)
    {code : Code σ ρ} (permitted : code.Asks (·.Configures t)) :
    Run.KeepsPath t (code.run h) := fun w => by
  -- over the tree of requests: what may be asked next depends on what has been answered
  induction code generalizing w with
  | done outcome => exact .refl w
  | look next ih => exact ih w.unrecorded (permitted w.unrecorded) w
  | setOwn own next ih =>
    have same : w.KeepsPath t (w.setOwn own) :=
      .silent ⟨rfl, List.prefix_rfl, fun _ there => ⟨there, rfl⟩⟩ rfl fun follows =>
        follows.congr rfl rfl rfl
    exact same.trans (ih permitted (w.setOwn own))
  | ask o next ih =>
    have inner := o.request_keepsPath keeps permitted.1 w
    rcases asked : o.request h (w.begin o) with ⟨outcome, v⟩
    rw [asked] at inner
    rw [run, asked]
    exact (inner.operation outcome).trans (ih outcome (permitted.2 outcome) _)

theorem Script.host_keepsPath (s : Script σ) {t : ScopeId}
    (permitted : ∀ call, (s.code call).Asks (·.Configures t)) (depth : Nat) :
    (s.host depth).KeepsPath t := by
  -- callbacks of one depth are code that calls those of the depth below
  induction depth with
  | zero => exact fun call => ⟨Run.exhausted, Host.answer_ofCalls .., .of_read fun _ => rfl⟩
  | succ depth ih =>
    exact fun call => ⟨_, Host.answer_ofCalls .., Code.run_keepsPath ih (permitted call)⟩

/-- Settings are set and restored and contexts are made, also by callbacks, for any keys. As long as
extensions leave no include path of their own in a child whose parent has none, at every moment each
context of a scope without directories of its own has the directories that its include path lists:
the entries that are not empty, each at its first place. In every world the directories of a context
are distinct, they are those that its index has, and one is added at the end if it is new. -/
theorem Script.search_path_follows {ρ : Type} (s : Script σ) (depth : Nat) {t : ScopeId}
    (asks : ∀ call, (s.code call).Asks (·.Configures t)) {code : Code σ ρ}
    (permitted : code.Asks (·.Configures t)) {w : Recorded σ} (follows : w.FollowsPath t) :
    (∀ before m after, w.since (code.run (s.host depth) w).2 = before ++ m :: after →
      (∀ x ∈ before, x.isClean) → ∀ c, m.world.contexts.has c → (m.world.context c).scope = t →
        (m.world.context c).searchPath.directories =
          SearchPath.listed (m.world.visible c "include_path")) ∧
    ((∀ x ∈ w.since (code.run (s.host depth) w).2, x.isClean) →
      ∀ c, (code.run (s.host depth) w).2.contexts.has c →
        ((code.run (s.host depth) w).2.context c).scope = t →
        ((code.run (s.host depth) w).2.context c).searchPath.directories =
          SearchPath.listed ((code.run (s.host depth) w).2.visible c "include_path")) ∧
    ∀ (v : World σ) (c : ContextId), (v.context c).searchPath.directories.Nodup ∧
      (∀ d, (v.context c).searchPath.index.contains d ↔ d ∈ (v.context c).searchPath.directories) ∧
      ∀ d, v.contexts.has c →
        ((Settings.addSearchPath c d v).2.context c).searchPath.directories =
          if d ∈ (v.context c).searchPath.directories then (v.context c).searchPath.directories
          else (v.context c).searchPath.directories ++ [d] := by
  have keeps := Code.run_keepsPath (s.host_keepsPath asks depth) permitted w
  refine ⟨fun before m after split clean => ?_, fun clean => (keeps.ended follows clean).follows,
    fun v c => ⟨(v.context c).searchPath.distinct, (v.context c).searchPath.indexed,
      fun d there => ?_⟩⟩
  · have told := keeps.told follows
    rw [split] at told
    exact (told.at clean).follows
  · rw [← SearchPath.directories_add, Settings.addSearchPath, modifyContext_apply]
    exact congrArg (·.searchPath.directories)
      ((World.context_updateContext ..).trans (if_pos ⟨rfl, there⟩))

def extending (key : Bytes) : Script Unit where
  patience := 1
  code
    | .loadExtension _ c => .each () [.act c (.setSetting key (.text "/x"))]
    | _ => .done (.error .exhausted)

theorem extending_asks (key : Bytes) (call : Call) :
    ((extending key).code call).Asks (·.Configures ⟨0⟩) := by
  cases call with
  | loadExtension k c =>
    exact ⟨trivial, fun _ => trivial⟩
  | _ => exact trivial

def extended : Recorded Unit :=
  ((Code.each () [.newAllocator, .newScope { ids := ⟨0⟩, extensions := [⟨0⟩] }] :
    Code Unit Unit).run Host.idle (.start (FileTree.make "/") ())).2

theorem extended_followsPath : extended.FollowsPath ⟨0⟩ where
  housed := by decide +kernel
  bare := by decide +kernel
  observed key := by
    show standardObservers.get? key = some .searchPath ↔ _
    rw [standardObservers, Table.get?_insert, Table.get?_empty]
    simp
  follows c there := by
    rw [show extended.contexts = .empty from rfl, Pool.has_iff] at there
    exact absurd there (Nat.not_lt_zero _)

def configuring : Code Unit Unit :=
  .each () [.newSink {}, .newContext ⟨0⟩ ⟨0⟩ {},
    .act ⟨0⟩ (.setSetting "include_path" (.text "/a::/b:/a")), .newChild ⟨0⟩ {},
    .act ⟨0⟩ (.restoreSetting "include_path")]

theorem configuring_asks : configuring.Asks (·.Configures ⟨0⟩) := by
  refine Code.asks_each () ?_
  simp only [List.forall_mem_cons]
  exact ⟨trivial, trivial, trivial, trivial, trivial, fun _ member => nomatch member⟩

theorem search_path_follows_configured :
    ∃ w', (configuring.run ((extending "k").host 1) extended).2 = w' ∧
      (w'.context ⟨0⟩).searchPath.directories = SearchPath.listed (w'.visible ⟨0⟩ "include_path") ∧
      (w'.context ⟨1⟩).searchPath.directories = SearchPath.listed (w'.visible ⟨1⟩ "include_path") ∧
      (w'.context ⟨0⟩).searchPath.directories = [] ∧
      (w'.context ⟨1⟩).searchPath.directories = [Bytes.ofString "/a", Bytes.ofString "/b"] := by
  obtain ⟨-, follow, -⟩ := (extending "k").search_path_follows 1 (extending_asks "k")
    configuring_asks extended_followsPath
  have clean : ∀ x ∈ extended.since (configuring.run ((extending "k").host 1) extended).2,
      x.isClean := by decide +kernel
  exact ⟨_, rfl, follow clean ⟨0⟩ (by decide +kernel) (by decide +kernel),
    follow clean ⟨1⟩ (by decide +kernel) (by decide +kernel), by decide +kernel, by decide +kernel⟩

def restoring : Code Unit Unit :=
  .each () [.newSink {}, .newContext ⟨0⟩ ⟨0⟩ {}, .act ⟨0⟩ (.restoreSetting "include_path"),
    .newChild ⟨0⟩ {}]

theorem child_loses_directories :
    (∀ call, ((extending "include_path").code call).Asks (·.Configures ⟨0⟩)) ∧
    restoring.Asks (·.Configures ⟨0⟩) ∧ extended.FollowsPath ⟨0⟩ ∧
    ∃ w', (restoring.run ((extending "include_path").host 1) extended).2 = w' ∧
      w'.visible ⟨1⟩ "include_path" = some (Bytes.ofString "/x") ∧
      SearchPath.listed (w'.visible ⟨1⟩ "include_path") = [Bytes.ofString "/x"] ∧
      (w'.context ⟨1⟩).searchPath.directories = [] := by
  refine ⟨extending_asks _, Code.asks_each () ?_, extended_followsPath, _, rfl, by decide +kernel,
    by decide +kernel, by decide +kernel⟩
  simp only [List.forall_mem_cons]
  exact ⟨trivial, trivial, trivial, trivial, fun _ member => nomatch member⟩

end ScriptHost
