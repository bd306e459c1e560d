import ScriptHost.Proofs.Embedder.Loaders
import ScriptHost.Proofs.Embedder.Services
import ScriptHost.Registry.ConstantRegistry
import ScriptHost.Registry.FunctionRegistry

set_option autoImplicit false

namespace ScriptHost

open Run

variable {σ : Type} {making : List ContextId} {home : Option ContextId}

def Autoloader.call? {τ : Type} (a : Autoloader) (w : World τ) (c : ContextId) (name : Bytes) :
    Option Call :=
  match a.loader with
  | .callback k => some (.autoload k c name)
  | .function f => (w.functions.get f).invoke.map (.callFunction · c [.text name])
  | .missing => none

namespace ClassRegistry

section Cases

variable {τ : Type} (h : Host τ) (c : ContextId) (w : World τ)

theorem enter_hookless {k : ClassId} (hookless : (w.classes.get k).onEnter = none) :
    enter h c k w = (.ok (), w.insertClass c k) := by
  simp [enter, hookless, World.insertClass]

theorem enter_hook {k : ClassId} {hook : Callback} (own : (w.classes.get k).onEnter = some hook) :
    enter h c k w = (do
      if let some f ← h.enterClass hook c then
        Run.modifyContext c fun x =>
          { x with classes := x.classes.erase (w.classes.get k).lowerName }
        Diagnostics.raiseText h c .coreError (w.classes.get k).trace
          ("Cannot initialize class " ++ (w.classes.get k).name ++ ": " ++ f.message) :
      Run τ Unit) (w.insertClass c k) := by
  rw [enter, bind_ok (classOf_apply w k), bind_ok (modifyContext_apply w c _), own]
  rfl

omit w in
def concludeEnter (e : Class) : Except Signal (Option Failure) → Run τ Unit
  | .ok none => pure ()
  | .ok (some f) => Diagnostics.raiseText h c .coreError e.trace
      ("Cannot initialize class " ++ e.name ++ ": " ++ f.message)
  | .error signal => throw signal

omit c w in
theorem findLower_absent {c : ContextId} {w : World τ} {lower : Bytes}
    (absent : (w.context c).classes.get? lower = none) :
    findLower h c lower w =
      (((w.scopeOf c).classes.get? lower).filter fun k => (w.classes.get k).isStatic).elim
        (.ok none, w) fun k => (enter h c k >>= fun _ => pure (some k)) w := by
  rw [findLower, bind_ok (context_apply w c), absent]
  dsimp only
  rw [bind_ok (scope_apply w _)]
  unfold World.scopeOf
  cases shared : (w.scopes.get (w.context c).scope).classes.get? lower with
  | none => rfl
  | some k =>
    dsimp only
    rw [bind_ok (classOf_apply w k)]
    cases isStatic : (w.classes.get k).isStatic <;> simp [isStatic, Option.filter]

theorem findLower_cases (lower : Bytes) :
    (∃ k, (w.context c).classes.get? lower = some k ∧ findLower h c lower w = (.ok (some k), w)) ∨
    ((w.context c).classes.get? lower = none ∧ findLower h c lower w = (.ok none, w)) ∨
    (∃ k, (w.context c).classes.get? lower = none ∧ (w.scopeOf c).classes.get? lower = some k ∧
      (w.classes.get k).isStatic ∧
      findLower h c lower w = (enter h c k >>= fun _ => pure (some k)) w) := by
  cases loaded : (w.context c).classes.get? lower with
  | some k =>
    rw [findLower, bind_ok (context_apply w c), loaded]
    exact .inl ⟨k, rfl, rfl⟩
  | none =>
    rw [findLower_absent h loaded]
    cases shared : (w.scopeOf c).classes.get? lower with
    | none => exact .inr (.inl ⟨rfl, rfl⟩)
    | some k =>
      by_cases isStatic : (w.classes.get k).isStatic
      · exact .inr (.inr ⟨k, rfl, rfl, isStatic, by simp [Option.filter, isStatic]⟩)
      · exact .inr (.inl ⟨rfl, by simp [Option.filter, isStatic]⟩)

theorem find_loaded {name : Bytes} {k : ClassId}
    (loaded : (w.context c).classes.get? (withoutSeparator name).lower = some k) :
    find h c name w = (.ok (some k), w) := by
  unfold find
  obtain ⟨k', found, same⟩ | ⟨absent, _⟩ | ⟨_, absent, _⟩ :=
    findLower_cases h c w (withoutSeparator name).lower
  · cases found.symm.trans loaded
    exact same
  all_goals exact nomatch absent.symm.trans loaded

theorem find_none {name : Bytes} {w' : World τ} (nowhere : find h c name w = (.ok none, w')) :
    w' = w ∧ (w.context c).classes.get? (withoutSeparator name).lower = none := by
  unfold find at nowhere
  obtain ⟨k, _, same⟩ | ⟨absent, same⟩ | ⟨k, _, _, _, same⟩ :=
    findLower_cases h c w (withoutSeparator name).lower
  · exact nomatch same.symm.trans nowhere
  · cases same.symm.trans nowhere
    exact ⟨rfl, absent⟩
  · obtain ⟨_, v, _, last⟩ := of_bind_ok (same.symm.trans nowhere)
    cases last

theorem tryLoaders_none {name : Bytes} (loaders : List Autoloader) {w w' : World τ}
    (absent : (w.context c).classes.get? (withoutSeparator name).lower = none)
    (nowhere : tryLoaders h c name loaders w = (.ok none, w')) :
    (w'.context c).classes.get? (withoutSeparator name).lower = none := by
  induction loaders generalizing w with
  | nil =>
    obtain ⟨x, v, read, last⟩ := of_bind_ok nowhere
    cases read
    cases fallback : (w.context c).autoload.fallback with
    | some a =>
      rw [show (w.contexts.get c).autoload.fallback = some a from fallback] at last
      obtain ⟨_, v, _, searched⟩ := of_bind_ok last
      obtain ⟨rfl, absent⟩ := find_none h c v searched
      exact absent
    | none =>
      rw [show (w.contexts.get c).autoload.fallback = none from fallback] at last
      cases last
      exact absent
  | cons a rest ih =>
    obtain ⟨_, v, _, searched⟩ := of_bind_ok nowhere
    obtain ⟨found, u, tried, last⟩ := of_bind_ok searched
    cases found with
    | some => cases last
    | none =>
      obtain ⟨rfl, absent⟩ := find_none h c v tried
      exact ih absent last

theorem autoload_none {name : Bytes} {w' : World τ}
    (absent : (w.context c).classes.get? (withoutSeparator name).lower = none)
    (nowhere : autoload h c name w = (.ok none, w')) :
    (w'.context c).classes.get? (withoutSeparator name).lower = none := by
  have unchanged (f : AutoloadChain → AutoloadChain) (v : World τ) (key : Bytes) :
      ((modifyAutoload c f v).2.context c).classes.get? key = (v.context c).classes.get? key :=
    v.contexts.modify_keeps c c _ (·.classes.get? key) fun _ => rfl
  obtain ⟨x, v, read, chosen⟩ := of_bind_ok nowhere
  cases read
  dsimp only at chosen
  split at chosen
  next =>
    cases chosen
    exact absent
  next =>
    obtain ⟨_, v, entered, guarded⟩ := of_bind_ok chosen
    obtain ⟨u, tried, left⟩ := of_ensuring_ok guarded
    cases entered
    cases left
    refine (unchanged (·.leave name.lower) u _).trans (tryLoaders_none h c _ ?_ tried)
    exact (unchanged (·.enter name.lower) w _).trans absent

theorem load_cases (a : Autoloader) (name : Bytes) :
    (a.call? w c name = none ∧ load h c a name w = (.error (.failure .fault), w)) ∨
    (∃ k, a.call? w c name = some (.autoload k c name) ∧
      load h c a name w = h.answer (.autoload k c name) w) ∨
    ∃ k, a.call? w c name = some (.callFunction k c [.text name]) ∧
      load h c a name w = h.answer (.callFunction k c [.text name]) w := by
  unfold load Autoloader.call?
  cases a.loader with
  | callback k => exact .inr (.inl ⟨k, rfl, rfl⟩)
  | missing => exact .inl ⟨rfl, rfl⟩
  | function f =>
    dsimp only
    rw [bind_ok (functionOf_apply w f)]
    cases (w.functions.get f).invoke with
    | none => exact .inl ⟨rfl, rfl⟩
    | some k => exact .inr (.inr ⟨k, rfl, rfl⟩)

theorem autoload_unable {name : Bytes} (unable : ¬ (isLoadable name ∧ name.lower ∉ w.busy c)) :
    autoload h c name w = (.ok none, w) := by
  rw [autoload, bind_ok (context_apply w c),
    if_pos (by simpa [World.busy, Classical.or_iff_not_imp_left] using unable)]
  rfl

theorem autoload_able {name : Bytes} (valid : isLoadable name) (free : name.lower ∉ w.busy c) :
    ∃ outcome v, tryLoaders h c name (w.context c).autoload.loaders
        (w.updateLoaders c (·.enter name.lower)) = (outcome, v) ∧
      autoload h c name w = (outcome, v.updateLoaders c (·.leave name.lower)) := by
  have idle : (w.context c).autoload.busy.contains name.lower = false := by
    simpa [World.busy] using free
  refine ⟨_, _, rfl, ?_⟩
  rw [autoload, bind_ok (context_apply w c), idle, valid]
  rfl

theorem fetch_none {name : Bytes} (single : (withoutSeparator name).head? ≠ some 0x5c)
    {w' : World τ} (nowhere : fetch h c name w = (.ok none, w')) :
    (w'.context c).classes.get? (withoutSeparator name).lower = none := by
  obtain ⟨found, v, tried, last⟩ := of_bind_ok nowhere
  cases found with
  | some => cases last
  | none =>
    obtain ⟨rfl, absent⟩ := find_none h c w tried
    rw [← withoutSeparator_of_plain single] at absent ⊢
    exact autoload_none h c v absent last

end Cases

theorem enter_answered {h : Host (Ledger σ)} {c : ContextId} {k : ClassId} {w v : Recorded σ}
    {hook : Callback} (own : (w.classes.get k).onEnter = some hook)
    {outcome : Except Signal (Option Failure)}
    (answered : h.enterClass hook c (w.insertClass c k) =
      (outcome, v.note (.answered (.enterClass hook c) outcome))) :
    enter h c k w = concludeEnter h c (w.classes.get k) outcome
      (v.leaveHook c (w.classes.get k).lowerName hook outcome) := by
  rw [enter_hook h c w own, bind_apply, answered]
  rcases outcome with signal | _ | f <;> rfl

variable {h : Host (Ledger σ)} (follows : h.Follows)
include follows

theorem enter_hook_cases {w : Recorded σ} {c : ContextId} (ready : w.Ready making (some c))
    {k : ClassId} (known : w.classes.has k) {hook : Callback}
    (own : (w.classes.get k).onEnter = some hook) :
    ∃ outcome v, Course [] ((w.insertClass c k).note (.called (.enterClass hook c))) v ∧
      (∀ d, v.contexts.has d → w.contexts.has d ∨ v.HasHandedOut d) ∧
      enter h c k w = concludeEnter h c (w.classes.get k) outcome
        (v.leaveHook c (w.classes.get k).lowerName hook outcome) := by
  obtain ⟨body, inner, same⟩ := follows (.enterClass hook c)
  have inserted := ready.sound.insertClass c k known
  have there : (w.insertClass c k).contexts.has c :=
    ((w.extends_insertClass c k).contexts c (ready.present c rfl)).1
  have course := inner [] none (w.insertClass c k) inserted.ready
  have within := inner [c] (some c) (w.insertClass c k) (inserted.readyFor there)
  have answered : h.enterClass hook c (w.insertClass c k) = _ := congrFun same _
  rw [Call.recorded] at answered
  rcases result : body ((w.insertClass c k).note (.called (.enterClass hook c))) with ⟨outcome, v⟩
  rw [result] at course within answered
  refine ⟨outcome, v, course, fun d there => ?_, enter_answered own answered⟩
  exact (within.handedOut nofun there).imp_left (w.has_updateContext c d _ ▸ ·)

theorem enter_course {w : Recorded σ} {c : ContextId} (ready : w.Ready making (some c)) {k : ClassId}
    (known : w.classes.has k) (entrance : w.Entrance making c k) :
    Course making w (enter h c k w).2 := by
  cases own : (w.classes.get k).onEnter with
  | none =>
    rw [enter_hookless h c w own]
    exact .change (.loadClass w c k known entrance own (ready.acts c rfl))
  | some hook =>
    obtain ⟨outcome, v, inner, handedOut, same⟩ := enter_hook_cases follows ready known own
    have left : Course making _ _ := .hook c k hook (ready.present c rfl)
      known entrance own outcome inner (ready.acts c rfl) handedOut
    rw [same]
    rcases outcome with signal | _ | f
    · exact left
    · exact left
    · exact left.trans (Diagnostics.raiseText_follows follows c _ _ _ making _ (left.ready ready))

theorem enter_held {w : Recorded σ} {c parent : ContextId} (ready : w.Ready making (some c))
    {k : ClassId} (known : w.classes.has k) (entrance : w.Entrance making c k) (apart : parent ≠ c)
    {d : ClassId} (held : w.HasHeld parent d) : (enter h c k w).2.HasHeld parent d := by
  have stays : (w.insertClass c k).context parent = w.context parent := by
    rw [World.insertClass, World.context_updateContext, if_neg fun same => apart same.1.symm]
  -- what the other context has is on record as soon as a moment is noted
  have noted {event : Event} {v : Recorded σ}
      (later : ((w.insertClass c k).note event).embedder.journal <+: v.embedder.journal) :
      v.HasHeld parent d := by
    rcases held with ⟨key, found⟩ | ⟨m, member, found⟩
    · exact .inr ⟨_, later.subset (List.mem_append_right _ List.mem_cons_self), key, stays ▸ found⟩
    · exact .inr ⟨m, later.subset (List.mem_append_left _ member), found⟩
  cases own : (w.classes.get k).onEnter with
  | none =>
    rw [enter_hookless h c w own]
    exact held.imp_left fun ⟨key, found⟩ => ⟨key, stays ▸ found⟩
  | some hook =>
    obtain ⟨outcome, v, inner, handedOut, same⟩ := enter_hook_cases follows ready known own
    have ended := inner.journal.trans
      (v.prefix_leaveHook c (w.classes.get k).lowerName hook outcome)
    have left : Course making _ _ := .hook c k hook (ready.present c rfl)
      known entrance own outcome inner (ready.acts c rfl) handedOut
    rw [same]
    rcases outcome with signal | _ | f
    · exact noted ended
    · exact noted ended
    · have raised := Diagnostics.raiseText_follows follows c .coreError (w.classes.get k).trace
        ("Cannot initialize class " ++ (w.classes.get k).name ++ ": " ++ f.message) making _
        (left.ready ready)
      exact noted (ended.trans raised.journal)

theorem enter_resolves {w w' : Recorded σ} {c : ContextId} (ready : w.Ready making (some c))
    {k : ClassId} (known : w.classes.has k)
    (plain : (w.classes.get k).lowerName.head? ≠ some 0x5c)
    (entered : enter h c k w = (.ok (), w')) :
    w'.Resolves c (.ofClass (w.classes.get k).lowerName k) := by
  have there := ready.present c rfl
  have inserted := World.insertClass_resolves there k
  cases own : (w.classes.get k).onEnter with
  | none =>
    rw [enter_hookless h c w own] at entered
    cases entered
    exact inserted
  | some hook =>
    obtain ⟨outcome, v, inner, -, same⟩ := enter_hook_cases follows ready known own
    have called := (ready.sound.insertClass c k known).note (.called (.enterClass hook c))
    have known' := ((w.extends_insertClass c k).contexts c there).1
    rw [same] at entered
    rcases outcome with signal | _ | f
    · cases entered
    · cases entered
      exact inner.keeps called known' List.not_mem_nil plain inserted
    · exact absurd entered (Diagnostics.raiseText_unwinds h c (by decide) (by decide) _ _ _ _)

theorem find_follows (c : ContextId) (name : Bytes) : (find h c name).Follows (some c) := by
  intro making w ready
  unfold find
  obtain ⟨k, _, same⟩ | ⟨_, same⟩ | ⟨k, absent, shared, isStatic, same⟩ :=
    findLower_cases h c w (withoutSeparator name).lower
  · rw [same]
    exact .still w
  · rw [same]
    exact .still w
  · have known := ((ready.sound.scopes _).classes _ k shared).1
    have entered := enter_course follows ready known (.fetched _ absent shared isStatic)
    rw [same]
    exact .bind ready entered fun _ w' _ _ => .still w'

theorem find_resolves {w w' : Recorded σ} {c : ContextId} (ready : w.Ready making (some c))
    {name : Bytes} {k : ClassId} (found : find h c name w = (.ok (some k), w'))
    (plain : (w'.classes.get k).name.head? ≠ some 0x5c) :
    w'.Resolves c (.ofClass (withoutSeparator name).lower k) := by
  have course := (find_follows follows c name).course ready found
  unfold find at found
  obtain ⟨k', loaded, same⟩ | ⟨_, same⟩ | ⟨k', _, shared, _, same⟩ :=
    findLower_cases h c w (withoutSeparator name).lower
  · cases same.symm.trans found
    exact loaded
  · cases same.symm.trans found
  · obtain ⟨known, own⟩ := (ready.sound.scopes _).classes _ k' shared
    obtain ⟨_, v, entered, last⟩ := of_bind_ok (same.symm.trans found)
    cases last
    have name := (course.extends.classes k known).2.1
    rw [name, Ne, ← Bytes.head?_lower] at plain
    exact own ▸ enter_resolves follows ready known plain entered

theorem load_course {w : Recorded σ} {c : ContextId} (ready : w.Ready making (some c))
    (a : Autoloader) {name : Bytes} (first : (w.busy c).head? = some name.lower) :
    Course making w (load h c a name w).2 := by
  obtain ⟨-, same⟩ | ⟨k, -, same⟩ | ⟨k, -, same⟩ := load_cases h c w a name
  · rw [same]
    exact .still w
  · rw [same]
    exact follows.answer_due _ rfl first ready
  · rw [same]
    exact follows.answer_due _ rfl first ready

theorem tryLoaders_course {w : Recorded σ} {c : ContextId} (ready : w.Ready making (some c))
    {name : Bytes} (first : (w.busy c).head? = some name.lower) (loaders : List Autoloader) :
    Course making w (tryLoaders h c name loaders w).2 := by
  induction loaders generalizing w with
  | nil =>
    rw [tryLoaders, bind_ok (context_apply w c)]
    cases (w.context c).autoload.fallback with
    | none => exact .still w
    | some a =>
      exact .bind ready (load_course follows ready a first) fun _ v _ later =>
        find_follows follows c name making v later
  | cons a rest ih =>
    have course := load_course follows ready a first
    refine .bind ready course fun _ v loaded later => ?_
    rw [loaded] at course
    have search := find_follows follows c name
    refine .bind later (search making v later) fun found u tried ended => ?_
    cases found with
    | some => exact .still u
    | none => exact ih ended (by rwa [(search.course later tried).busy, course.busy])

omit follows in
theorem ready_enter {w : Recorded σ} {c : ContextId} (ready : w.Ready making (some c))
    (name : Bytes) : (w.updateLoaders c (·.enter name.lower)).Ready making (some c) ∧
      ((w.updateLoaders c (·.enter name.lower)).busy c).head? = some name.lower := by
  refine ⟨ready.later (ready.sound.updateLoaders c _) (w.extends_updateLoaders c _) rfl, ?_⟩
  rw [World.busy_updateLoaders _ (ready.present c rfl)]
  rfl

theorem autoload_follows (c : ContextId) (name : Bytes) : (autoload h c name).Follows (some c) := by
  intro making w ready
  by_cases able : isLoadable name ∧ name.lower ∉ w.busy c
  next =>
    obtain ⟨outcome, v, tried, same⟩ := autoload_able h c w able.1 able.2
    obtain ⟨entered, first⟩ := ready_enter ready name
    have inner := tryLoaders_course follows entered first (w.context c).autoload.loaders
    rw [tried] at inner
    rw [same]
    exact .autoload c _ (ready.present c rfl) able.2 inner (ready.acts c rfl)
  next =>
    rw [autoload_unable h c w able]
    exact .still w

theorem fetch_follows (c : ContextId) (name : Bytes) : (fetch h c name).Follows (some c) := by
  refine .bind (find_follows follows c name) fun found => ?_
  split
  next => exact .pure _
  next => exact autoload_follows follows c _

theorem require_follows (c : ContextId) (trace : Trace) (name : Bytes) :
    (require h c trace name).Follows (some c) := by
  refine .bind (fetch_follows follows c name) fun found => ?_
  split
  next => exact .pure _
  next =>
    exact .bind (Diagnostics.raiseText_follows follows c .error trace _) fun _ => .pure _

omit follows in
theorem addLoader_follows (c : ContextId) (a : Autoloader) (atFront : Bool) :
    (addLoader c a atFront : Run (Ledger σ) Bool).Follows (some c) :=
  .bind (context_follows c) fun _ =>
    .bind (modifyAutoload_follows c _ fun _ => .registered a atFront) fun _ => .pure _

omit follows in
theorem removeLoader_follows (c : ContextId) (key : Bytes) :
    (removeLoader c key : Run (Ledger σ) Bool).Follows (some c) :=
  .bind (context_follows c) fun _ =>
    .bind (modifyAutoload_follows c _ fun _ => .unregistered key) fun _ => .pure _

theorem tryLoaders_finds {w w' : Recorded σ} {c : ContextId} (ready : w.Ready making (some c))
    {name : Bytes} (first : (w.busy c).head? = some name.lower) {k : ClassId}
    (loaders : List Autoloader) (found : tryLoaders h c name loaders w = (.ok (some k), w')) :
    ∃ v, Course making w v ∧ find h c name v = (.ok (some k), w') := by
  induction loaders generalizing w with
  | nil =>
    obtain ⟨x, v, read, last⟩ := of_bind_ok found
    cases read
    cases fallback : (w.context c).autoload.fallback with
    | some a =>
      rw [show (w.contexts.get c).autoload.fallback = some a from fallback] at last
      obtain ⟨_, v, loaded, last⟩ := of_bind_ok last
      have course := load_course follows ready a first
      rw [loaded] at course
      exact ⟨v, course, last⟩
    | none =>
      rw [show (w.contexts.get c).autoload.fallback = none from fallback] at last
      cases last
  -- a loader that brings nothing is passed over, and its course is part of the course to the last
  -- search
  | cons a rest ih =>
    obtain ⟨_, v, loaded, searched⟩ := of_bind_ok found
    obtain ⟨result, u, tried, last⟩ := of_bind_ok searched
    have course := load_course follows ready a first
    rw [loaded] at course
    cases result with
    | some k' =>
      cases last
      exact ⟨v, course, tried⟩
    | none =>
      obtain ⟨rfl, _⟩ := find_none h c v tried
      obtain ⟨v, later, last⟩ := ih (course.ready ready) (by rwa [course.busy]) last
      exact ⟨v, course.trans later, last⟩

theorem fetch_searches {w w' : Recorded σ} {c : ContextId} (ready : w.Ready making (some c))
    {name : Bytes} {k : ClassId} (found : fetch h c name w = (.ok (some k), w')) :
    ∃ n v u, (n = name ∨ n = withoutSeparator name) ∧ v.Ready making (some c) ∧
      w.embedder.journal <+: v.embedder.journal ∧ find h c n v = (.ok (some k), u) ∧
      (w' = u ∨ ∃ f, w' = u.updateLoaders c f) := by
  obtain ⟨result, v, tried, last⟩ := of_bind_ok found
  cases result with
  | some k' =>
    cases last
    exact ⟨name, w, w', .inl rfl, ready, List.prefix_rfl, tried, .inl rfl⟩
  | none =>
    obtain ⟨rfl, _⟩ := find_none h c w tried
    by_cases able : isLoadable (withoutSeparator name) ∧ (withoutSeparator name).lower ∉ v.busy c
    next =>
      obtain ⟨outcome, u, tried, same⟩ := autoload_able h c v able.1 able.2
      obtain ⟨entered, first⟩ := ready_enter ready (withoutSeparator name)
      cases same.symm.trans last
      obtain ⟨v, course, finds⟩ := tryLoaders_finds follows entered first _ tried
      exact ⟨_, v, u, .inr rfl, course.ready entered, course.journal, finds, .inr ⟨_, rfl⟩⟩
    next => exact nomatch (autoload_unable h c v able).symm.trans last

theorem fetch_finds {w w' : Recorded σ} {c : ContextId} (ready : w.Ready making (some c))
    {name : Bytes} (single : (withoutSeparator name).head? ≠ some 0x5c) {k : ClassId}
    (found : fetch h c name w = (.ok (some k), w')) :
    ∃ v u, v.Ready making (some c) ∧ find h c name v = (.ok (some k), u) ∧
      (w' = u ∨ ∃ f, w' = u.updateLoaders c f) := by
  obtain ⟨n, v, u, same, later, -, finds, rest⟩ := fetch_searches follows ready found
  refine ⟨v, u, later, ?_, rest⟩
  unfold find at finds ⊢
  rcases same with rfl | rfl
  · exact finds
  · rwa [withoutSeparator_of_plain single] at finds

theorem fetch_resolves {w w' : Recorded σ} {c : ContextId} (ready : w.Ready making (some c))
    {name : Bytes} (single : (withoutSeparator name).head? ≠ some 0x5c) {k : ClassId}
    (found : fetch h c name w = (.ok (some k), w'))
    (plain : (w'.classes.get k).name.head? ≠ some 0x5c) :
    w'.Resolves c (.ofClass (withoutSeparator name).lower k) := by
  obtain ⟨v, u, later, finds, rfl | ⟨f, rfl⟩⟩ := fetch_finds follows ready single found
  · exact find_resolves follows later finds plain
  · have resolved := find_resolves follows later finds plain
    exact resolved.updateLoaders c f

theorem find_supplied {w w' : Recorded σ} {c : ContextId} (ready : w.Ready making (some c))
    {name : Bytes} {k : ClassId} (found : find h c name w = (.ok (some k), w')) :
    w'.Resolves c (.ofClass (withoutSeparator name).lower k) ∨
      (w'.scopeOf c).classes.get? (withoutSeparator name).lower = some k := by
  have course := (find_follows follows c name).course ready found
  unfold find at found
  obtain ⟨k', loaded, same⟩ | ⟨_, same⟩ | ⟨k', _, shared, _, same⟩ :=
    findLower_cases h c w (withoutSeparator name).lower
  · cases same.symm.trans found
    exact .inl loaded
  · cases same.symm.trans found
  · obtain ⟨_, v, entered, last⟩ := of_bind_ok (same.symm.trans found)
    cases last
    exact .inr ((course.extends.scopeOf (ready.present c rfl)).classes _ _ shared)

theorem fetch_supplied {w w' : Recorded σ} {c : ContextId} (ready : w.Ready making (some c))
    {name : Bytes} (single : (withoutSeparator name).head? ≠ some 0x5c) {k : ClassId}
    (found : fetch h c name w = (.ok (some k), w')) :
    w'.Resolves c (.ofClass (withoutSeparator name).lower k) ∨
      (w'.scopeOf c).classes.get? (withoutSeparator name).lower = some k := by
  obtain ⟨v, u, later, finds, rfl | ⟨f, rfl⟩⟩ := fetch_finds follows ready single found
  · exact find_supplied follows later finds
  · refine (find_supplied follows later finds).imp (·.updateLoaders c f) fun shared => ?_
    have same := u.scopeOf_updateContext c c (fun x => { x with autoload := f x.autoload }) fun _ => rfl
    exact same ▸ shared

theorem find_answers {w w' : Recorded σ} {c : ContextId} (ready : w.Ready making (some c))
    {name : Bytes} {outcome : Except Signal (Option ClassId)}
    (ended : find h c name w = (outcome, w')) :
    w'.Answers c (.ofClass (withoutSeparator name).lower) w'.Retains outcome where
  absent nowhere k found := by
    subst nowhere
    obtain ⟨rfl, absent⟩ := find_none h c w ended
    exact nomatch absent.symm.trans found
  present k found stays := by
    subst found
    exact find_resolves follows ready ended stays.2
  supplied k found := by
    subst found
    exact find_supplied follows ready ended

theorem fetch_answers {w w' : Recorded σ} {c : ContextId} (ready : w.Ready making (some c))
    {name : Bytes} (single : (withoutSeparator name).head? ≠ some 0x5c)
    {outcome : Except Signal (Option ClassId)} (ended : fetch h c name w = (outcome, w')) :
    w'.Answers c (.ofClass (withoutSeparator name).lower) w'.Retains outcome where
  absent nowhere k found := by
    subst nowhere
    exact nomatch (fetch_none h c w single ended).symm.trans found
  present k found stays := by
    subst found
    exact fetch_resolves follows ready single ended stays.2
  supplied k found := by
    subst found
    exact fetch_supplied follows ready single ended

omit follows in
theorem declare_absent {w : Recorded σ} {c : ContextId} {k : ClassId} (known : w.classes.has k)
    (nowhere : find h c (w.classes.get k).name w = (.ok none, w)) :
    declare h c k w = (.ok false, w) ∨
      ∃ v, Course making w v ∧ v.embedder = w.embedder ∧ v.Entrance making c k ∧
        declare h c k w = (enter h c k >>= fun _ => pure true) v := by
  have absent := (find_none h c w nowhere).2
  rw [declare, bind_ok (classOf_apply w k), bind_ok nowhere]
  dsimp only
  rw [bind_ok (classOf_apply w k)]
  split
  next isStatic =>
    rw [bind_ok (scopeOf_apply w c), bind_ok (scope_apply w _)]
    rcases entry : Scope.enter (w.scopes.get (w.context c).scope).classes
      (w.classes.get k).lowerName k with ⟨current, classes⟩
    dsimp only
    split
    next => exact .inl rfl
    next taken =>
      -- the scope has the class itself under the name, either since now or before
      obtain rfl := Decidable.not_not.1 taken
      rw [bind_ok (modifyScope_apply w _ _), w.updateScope_congr (w.context c).scope
        (g := fun x => { x with
          classes := (Scope.enter x.classes (w.classes.get current).lowerName current).2 })
        (by rw [entry])]
      refine .inr ⟨_, .change (.declareClass w (w.context c).scope current known isStatic), rfl,
        .declared absent fun _ there => ?_, rfl⟩
      rw [World.scopeOf_updateScope w c _ ((Pool.has_modify ..).symm.trans there)]
      exact (Scope.enter_fst ..).trans (congrArg (some ∘ Prod.fst) entry)
  next isDynamic =>
    exact .inr ⟨w, .still w, rfl, .declared absent fun isStatic => absurd isStatic isDynamic, rfl⟩

theorem declare_cases {w : Recorded σ} {c : ContextId} (ready : w.Ready making (some c))
    {k : ClassId} (known : w.classes.has k) :
    ∃ v, Course making w v ∧
      ((∃ outcome, declare h c k w = (outcome, v) ∧
        (outcome = .ok true → find h c (w.classes.get k).name w = (.ok (some k), v))) ∨
      v.Entrance making c k ∧ declare h c k w = (enter h c k >>= fun _ => pure true) v) := by
  have searched := find_follows follows c (w.classes.get k).name
  rcases found : find h c (w.classes.get k).name w with ⟨signal | _ | current, v⟩
  · have failed : declare h c k w = (.error signal, v) := by
      rw [declare, bind_ok (classOf_apply w k), bind_apply, found]
    exact ⟨v, searched.course ready found, .inl ⟨_, failed, nofun⟩⟩
  · obtain ⟨rfl, -⟩ := find_none h c w found
    rcases declare_absent known found with taken | ⟨u, course, -, entrance, entered⟩
    · exact ⟨v, .still v, .inl ⟨_, taken, nofun⟩⟩
    · exact ⟨u, course, .inr ⟨entrance, entered⟩⟩
  · have known : declare h c k w = (.ok (current == k), v) := by
      rw [declare, bind_ok (classOf_apply w k), bind_ok found]
      rfl
    refine ⟨v, searched.course ready found, .inl ⟨_, known, fun same => ?_⟩⟩
    rw [eq_of_beq (Except.ok.inj same)]

theorem declare_course {w : Recorded σ} {c : ContextId} (ready : w.Ready making (some c))
    {k : ClassId} (known : w.classes.has k) : Course making w (declare h c k w).2 := by
  obtain ⟨v, course, ⟨outcome, same, -⟩ | ⟨entrance, same⟩⟩ := declare_cases follows ready known
  · rwa [same]
  · have there := (course.extends.classes k known).1
    have entered := enter_course follows (course.ready ready) there entrance
    rw [same]
    exact course.trans (.bind (course.ready ready) entered fun _ v _ _ => .still v)

theorem declare_resolves {w w' : Recorded σ} {c : ContextId} (ready : w.Ready making (some c))
    {k : ClassId} (known : w.classes.has k) (plain : (w.classes.get k).name.head? ≠ some 0x5c)
    (declared : declare h c k w = (.ok true, w')) :
    w'.Resolves c (.ofClass (w.classes.get k).lowerName k) := by
  obtain ⟨v, course, ⟨outcome, same, finds⟩ | ⟨entrance, same⟩⟩ := declare_cases follows ready known
  · cases same.symm.trans declared
    have named := (course.extends.classes k known).2.1
    have resolved := find_resolves follows ready (finds rfl) (named ▸ plain)
    rwa [withoutSeparator_of_plain plain] at resolved
  · obtain ⟨there, named, -⟩ := course.extends.classes k known
    obtain ⟨_, u, entered, last⟩ := of_bind_ok (same.symm.trans declared)
    cases last
    have lower : (v.classes.get k).lowerName = (w.classes.get k).lowerName :=
      congrArg Bytes.lower named
    have separate : (v.classes.get k).lowerName.head? ≠ some 0x5c :=
      lower ▸ mt (Bytes.head?_lower _).1 plain
    exact lower ▸ enter_resolves follows (course.ready ready) there separate entered

theorem register_course {w : Recorded σ} {c : ContextId} (ready : w.Ready making (some c)) {k : ClassId}
    (known : w.classes.has k) : Course making w (register h c k w).2 := by
  refine .bind ready (declare_course follows ready known) fun declared w' _ later => ?_
  split
  next =>
    refine Follows.bind (classOf_follows k) (fun e => ?_) making w' later
    exact Diagnostics.raiseText_follows follows c .error e.trace _
  next => exact .still w'

end ClassRegistry

namespace FunctionRegistry

theorem fetch_cases {τ : Type} (c : ContextId) (name : Bytes) (w : World τ) :
    (∃ f, (w.context c).functions.get? (withoutSeparator name).lower = some f ∧
      fetch c name w = (.ok (some f), w)) ∨
    ((w.context c).functions.get? (withoutSeparator name).lower = none ∧
      fetch c name w = (.ok none, w)) ∨
    (∃ f, (w.context c).functions.get? (withoutSeparator name).lower = none ∧
      (w.scopeOf c).functions.get? (withoutSeparator name).lower = some f ∧
      fetch c name w = (.ok (some f), w.updateContext c fun x =>
        { x with functions := x.functions.insert (withoutSeparator name).lower f })) := by
  rw [fetch, bind_ok (context_apply w c)]
  cases loaded : (w.context c).functions.get? (withoutSeparator name).lower with
  | some f => exact .inl ⟨f, rfl, rfl⟩
  | none =>
    dsimp only
    rw [bind_ok (scope_apply w _)]
    cases shared : (w.scopes.get (w.context c).scope).functions.get?
      (withoutSeparator name).lower with
    | none => exact .inr (.inl ⟨rfl, rfl⟩)
    | some f => exact .inr (.inr ⟨f, rfl, shared, rfl⟩)

theorem fetch_loaded {τ : Type} {c : ContextId} {name : Bytes} {w : World τ} {f : FunctionId}
    (loaded : (w.context c).functions.get? (withoutSeparator name).lower = some f) :
    fetch c name w = (.ok (some f), w) := by
  obtain ⟨f', found, same⟩ | ⟨absent, _⟩ | ⟨_, absent, _⟩ := fetch_cases c name w
  · cases found.symm.trans loaded
    exact same
  all_goals exact nomatch absent.symm.trans loaded

theorem fetch_none {τ : Type} {c : ContextId} {name : Bytes} {w w' : World τ}
    (nowhere : fetch c name w = (.ok none, w')) :
    w' = w ∧ (w.context c).functions.get? (withoutSeparator name).lower = none := by
  obtain ⟨f, _, same⟩ | ⟨absent, same⟩ | ⟨f, _, _, same⟩ := fetch_cases c name w
  · cases same.symm.trans nowhere
  · cases same.symm.trans nowhere
    exact ⟨rfl, absent⟩
  · cases same.symm.trans nowhere

theorem fetch_follows (c : ContextId) (name : Bytes) :
    (fetch c name : Run (Ledger σ) (Option FunctionId)).Follows (some c) := by
  intro making w ready
  obtain ⟨f, _, same⟩ | ⟨_, same⟩ | ⟨f, absent, shared, same⟩ := fetch_cases c name w
  · rw [same]
    exact .still w
  · rw [same]
    exact .still w
  · rw [same]
    exact .change (.cacheFunction w c _ f absent shared (ready.acts c rfl))

theorem insert_resolves {τ : Type} {c : ContextId} {lower : Bytes} {f : FunctionId} {w : World τ}
    (there : w.contexts.has c) : (w.updateContext c fun x =>
      { x with functions := x.functions.insert lower f }).Resolves c (.ofFunction lower f) := by
  unfold World.Resolves
  rw [World.context_updateContext, if_pos ⟨rfl, there⟩]
  exact (Table.get?_insert ..).trans (if_pos rfl)

theorem fetch_resolves {τ : Type} {c : ContextId} {name : Bytes} {f : FunctionId} {w w' : World τ}
    (there : w.contexts.has c) (found : fetch c name w = (.ok (some f), w')) :
    w'.Resolves c (.ofFunction (withoutSeparator name).lower f) := by
  obtain ⟨f', loaded, same⟩ | ⟨_, same⟩ | ⟨f', _, _, same⟩ := fetch_cases c name w
  · cases same.symm.trans found
    exact loaded
  · cases same.symm.trans found
  · cases same.symm.trans found
    exact insert_resolves there

theorem fetch_answers {τ : Type} {c : ContextId} {name : Bytes} {w w' : World τ}
    (there : w.contexts.has c) {outcome : Except Signal (Option FunctionId)}
    (ended : fetch c name w = (outcome, w')) :
    w'.Answers c (.ofFunction (withoutSeparator name).lower) (fun _ => True) outcome where
  absent nowhere f found := by
    subst nowhere
    obtain ⟨rfl, absent⟩ := fetch_none ended
    exact nomatch absent.symm.trans found
  present f found _ := by
    subst found
    exact fetch_resolves there ended
  supplied f found := by
    subst found
    exact .inl (fetch_resolves there ended)

theorem declare_ends {w : Recorded σ} {c : ContextId} (ready : w.Ready making (some c))
    {f : FunctionId} (known : w.functions.has f) :
    ∃ outcome v, (declare c f w : Except Signal Bool × Recorded σ) = (outcome, v) ∧
      Course making w v ∧
      (outcome = .ok true → (w.functions.get f).name.head? ≠ some 0x5c →
        v.Resolves c (.ofFunction (w.functions.get f).lowerName f)) := by
  have searched : (fetch c (w.functions.get f).name : Run (Ledger σ) _).Follows (some c) :=
    fetch_follows c _
  rw [declare, bind_ok (functionOf_apply w f), bind_apply]
  rcases found : fetch c (w.functions.get f).name w with ⟨signal | _ | current, v⟩
  · exact ⟨_, v, rfl, searched.course ready found, nofun⟩
  · obtain ⟨rfl, absent⟩ := fetch_none found
    dsimp only
    split
    next isStatic =>
      rw [bind_ok (scopeOf_apply v c), bind_ok (scope_apply v _)]
      rcases entry : Scope.enter (v.scopes.get (v.context c).scope).functions
        (v.functions.get f).lowerName f with ⟨current, functions⟩
      dsimp only
      split
      next => exact ⟨_, v, rfl, .still v, nofun⟩
      next taken =>
        obtain rfl := Decidable.not_not.1 taken
        rw [bind_ok (modifyScope_apply v _ _), v.updateScope_congr (v.context c).scope
          (g := fun x => { x with
            functions := (Scope.enter x.functions (v.functions.get current).lowerName current).2 })
          (by rw [entry])]
        have step : Course making _ _ := .change
          (.declareFunction v (v.context c).scope current known isStatic)
        refine ⟨_, _, rfl, step.trans (.change (.insertFunction _ c current known absent
          (fun _ there => ?_) (ready.acts c rfl))),
          fun _ _ => insert_resolves (ready.present c rfl)⟩
        rw [World.scopeOf_updateScope v c _ ((Pool.has_modify ..).symm.trans there)]
        exact (Scope.enter_fst ..).trans (congrArg (some ∘ Prod.fst) entry)
    next isDynamic =>
      exact ⟨_, _, rfl, .change (.insertFunction v c f known absent
        (fun isStatic => absurd isStatic isDynamic) (ready.acts c rfl)),
        fun _ _ => insert_resolves (ready.present c rfl)⟩
  · refine ⟨_, v, rfl, searched.course ready found, fun same plain => ?_⟩
    obtain rfl : current = f := eq_of_beq (Except.ok.inj same)
    have resolved := fetch_resolves (ready.present c rfl) found
    rwa [withoutSeparator_of_plain plain] at resolved

theorem declare_course {w : Recorded σ} {c : ContextId} (ready : w.Ready making (some c))
    {f : FunctionId} (known : w.functions.has f) :
    Course making w (declare c f w : Except Signal Bool × Recorded σ).2 := by
  obtain ⟨outcome, v, same, course, -⟩ := declare_ends ready known
  rwa [same]

theorem all_follows (c : ContextId) : (all c : Run (Ledger σ) (List FunctionId)).Follows (some c) :=
  .of_own_change fun _ w acts => .mergeFunctions w c acts

theorem register_course {h : Host (Ledger σ)} (follows : h.Follows) {w : Recorded σ}
    {c : ContextId} (ready : w.Ready making (some c)) {f : FunctionId} (known : w.functions.has f) :
    Course making w (register h c f w).2 := by
  refine .bind ready (declare_course ready known) fun declared w' _ later => ?_
  split
  next =>
    refine Follows.bind (functionOf_follows f) (fun e => ?_) making w' later
    exact Diagnostics.raiseText_follows follows c .error e.trace _
  next => exact .still w'

end FunctionRegistry

namespace ConstantRegistry

theorem find_cases {τ : Type} (c : ContextId) (name : Bytes) (w : World τ) :
    (∃ k, (w.context c).constants.find? (withoutSeparator name) = some k ∧
      find c name w = (.ok (some k), w)) ∨
    ((w.context c).constants.find? (withoutSeparator name) = none ∧
      (w.scopeOf c).constants.find? (withoutSeparator name) = none ∧
      find c name w = (.ok none, w)) ∨
    (∃ k, (w.context c).constants.find? (withoutSeparator name) = none ∧
      (w.scopeOf c).constants.find? (withoutSeparator name) = some k ∧
      find c name w = (.ok (some k), w.updateContext c fun x =>
        { x with constants := x.constants.add (w.constants.get k) k })) := by
  rw [find, bind_ok (context_apply w c)]
  cases loaded : (w.context c).constants.find? (withoutSeparator name) with
  | some k => exact .inl ⟨k, rfl, rfl⟩
  | none =>
    dsimp only
    rw [bind_ok (scope_apply w _)]
    cases shared : (w.scopes.get (w.context c).scope).constants.find? (withoutSeparator name) with
    | none => exact .inr (.inl ⟨rfl, shared, rfl⟩)
    | some k => exact .inr (.inr ⟨k, rfl, shared, rfl⟩)

theorem find_loaded {τ : Type} {c : ContextId} {name : Bytes} {w : World τ} {k : ConstantId}
    (loaded : (w.context c).constants.find? (withoutSeparator name) = some k) :
    find c name w = (.ok (some k), w) := by
  obtain ⟨k', found, same⟩ | ⟨absent, _, _⟩ | ⟨_, absent, _⟩ := find_cases c name w
  · cases found.symm.trans loaded
    exact same
  all_goals exact nomatch absent.symm.trans loaded

theorem find_none {τ : Type} {c : ContextId} {name : Bytes} {w w' : World τ}
    (nowhere : find c name w = (.ok none, w')) :
    w' = w ∧ (w.context c).constants.find? (withoutSeparator name) = none := by
  obtain ⟨k, _, same⟩ | ⟨absent, _, same⟩ | ⟨k, _, _, same⟩ := find_cases c name w
  · cases same.symm.trans nowhere
  · cases same.symm.trans nowhere
    exact ⟨rfl, absent⟩
  · cases same.symm.trans nowhere

theorem find_follows (c : ContextId) (name : Bytes) :
    (find c name : Run (Ledger σ) (Option ConstantId)).Follows (some c) := by
  intro making w ready
  obtain ⟨k, _, same⟩ | ⟨_, _, same⟩ | ⟨k, absent, shared, same⟩ := find_cases c name w
  · rw [same]
    exact .still w
  · rw [same]
    exact .still w
  · rw [same]
    exact .change (.cacheConstant w c _ k absent shared (ready.acts c rfl))

theorem find_resolves {τ : Type} {c : ContextId} {name : Bytes} {k : ConstantId} {w w' : World τ}
    (sound : w.Sound) (there : w.contexts.has c) (found : find c name w = (.ok (some k), w')) :
    w'.Resolves c (.ofConstant (withoutSeparator name) k) := by
  obtain ⟨k', loaded, same⟩ | ⟨_, _, same⟩ | ⟨k', absent, shared, same⟩ := find_cases c name w
  · cases same.symm.trans found
    exact loaded
  · cases same.symm.trans found
  · cases same.symm.trans found
    have own := ((sound.scopes _).find_constant shared).2
    unfold World.Resolves
    rw [World.context_updateContext, if_pos ⟨rfl, there⟩]
    exact ConstantSet.find?_add_self k absent own

theorem add_resolves {τ : Type} {c : ContextId} {name : Bytes} {w : World τ} {k : ConstantId}
    (there : w.contexts.has c) (absent : (w.context c).constants.find? name = none)
    (own : (w.constants.get k).name = name) :
    (w.updateContext c fun x => { x with
      constants := x.constants.add (w.constants.get k) k }).Resolves c (.ofConstant name k) := by
  unfold World.Resolves
  rw [World.context_updateContext, if_pos ⟨rfl, there⟩]
  refine ConstantSet.find?_add_self k absent ?_
  subst own
  split <;> rfl

theorem find_answers {τ : Type} {c : ContextId} {name : Bytes} {w w' : World τ} (sound : w.Sound)
    (there : w.contexts.has c) {outcome : Except Signal (Option ConstantId)}
    (ended : find c name w = (outcome, w')) :
    w'.Answers c (.ofConstant (withoutSeparator name)) (fun _ => True) outcome where
  absent nowhere k found := by
    subst nowhere
    obtain ⟨rfl, absent⟩ := find_none ended
    exact nomatch absent.symm.trans found
  present k found _ := by
    subst found
    exact find_resolves sound there ended
  supplied k found := by
    subst found
    exact .inl (find_resolves sound there ended)

theorem fetch_follows (c : ContextId) (name : Bytes) :
    (fetch c name : Run (Ledger σ) (Option Value)).Follows (some c) := by
  refine .bind (find_follows c name) fun found => ?_
  split
  next k => exact .bind (constantOf_follows k) fun _ => .pure _
  next => exact .pure _

theorem declare_ends {w : Recorded σ} {c : ContextId} (ready : w.Ready making (some c))
    {k : ConstantId} (known : w.constants.has k) :
    ∃ outcome v, (declare c k w : Except Signal Bool × Recorded σ) = (outcome, v) ∧
      Course making w v ∧
      (outcome = .ok true → (w.constants.get k).name.head? ≠ some 0x5c →
        v.Resolves c (.ofConstant (w.constants.get k).name k)) := by
  have searched : (find c (w.constants.get k).name : Run (Ledger σ) _).Follows (some c) :=
    find_follows c _
  rw [declare, bind_ok (constantOf_apply w k), bind_apply]
  rcases found : find c (w.constants.get k).name w with ⟨signal | _ | current, v⟩
  · exact ⟨_, v, rfl, searched.course ready found, nofun⟩
  · obtain ⟨rfl, absent⟩ := find_none found
    dsimp only
    rw [bind_ok (scopeOf_apply v c), bind_ok (scope_apply v _)]
    rcases entry : enterSet (v.scopes.get (v.context c).scope).constants (v.constants.get k) k
      with ⟨current, constants⟩
    dsimp only
    split
    next => exact ⟨_, v, rfl, .still v, nofun⟩
    next taken =>
      obtain rfl := Decidable.not_not.1 taken
      rw [bind_ok (modifyScope_apply v _ _), v.updateScope_congr (v.context c).scope
        (g := fun x => { x with
          constants := (enterSet x.constants (v.constants.get current) current).2 })
        (by rw [entry])]
      have step : Course making _ _ := .change
        (.declareConstant v (v.context c).scope current known)
      refine ⟨_, _, rfl, step.trans (.change (.insertConstant _ c current known absent
        (ready.acts c rfl))), fun _ plain => ?_⟩
      rw [withoutSeparator_of_plain plain] at absent
      exact add_resolves (w := v.updateScope _ _) (ready.present c rfl) absent rfl
  · refine ⟨_, v, rfl, searched.course ready found, fun same plain => ?_⟩
    obtain rfl : current = k := eq_of_beq (Except.ok.inj same)
    have resolved := find_resolves ready.sound (ready.present c rfl) found
    rwa [withoutSeparator_of_plain plain] at resolved

theorem declare_course {w : Recorded σ} {c : ContextId} (ready : w.Ready making (some c))
    {k : ConstantId} (known : w.constants.has k) :
    Course making w (declare c k w : Except Signal Bool × Recorded σ).2 := by
  obtain ⟨outcome, v, same, course, -⟩ := declare_ends ready known
  rwa [same]

variable {h : Host (Ledger σ)} (follows : h.Follows)
include follows

theorem fetchOrName_follows (c : ContextId) (name : Bytes) (trace : Trace) :
    (fetchOrName h c name trace).Follows (some c) := by
  refine .bind (fetch_follows c name) fun found => ?_
  split
  next => exact .pure _
  next =>
    exact .bind (Diagnostics.raiseText_follows follows c .notice trace _) fun _ => .pure _

theorem register_course {w : Recorded σ} {c : ContextId} (ready : w.Ready making (some c))
    {k : ConstantId} (known : w.constants.has k) : Course making w (register h c k w).2 := by
  refine .bind ready (declare_course ready known) fun declared w' _ later => ?_
  split
  next =>
    refine Follows.bind (constantOf_follows k) (fun e => ?_) making w' later
    exact Diagnostics.raiseText_follows follows c .error e.trace _
  next => exact .still w'

theorem define_follows (c : ContextId) (name : Bytes) (value : Value) (isCaseSensitive : Bool) :
    (define h c name value isCaseSensitive).Follows (some c) := by
  intro making w ready
  unfold define
  rw [bind_ok (show Calls.trace c w = (.ok (w.context c).trace, w) from rfl)]
  refine .bind ready (find_follows c _ making w ready) fun found w' tried later => ?_
  cases found with
  | some k =>
    refine Follows.bind ?_ (fun _ => .pure _) making w' later
    exact Diagnostics.raiseText_follows follows c .notice _ _
  | none =>
    obtain ⟨rfl, absent⟩ := find_none tried
    let e : Constant :=
      ⟨withoutSeparator name, value, isCaseSensitive, (w'.context c).trace⟩
    have added : Course making _ _ := .change (.addConstant w' e)
    have fresh : (w'.constants.add e).get w'.constants.next = e := Pool.get_add_next ..
    refine added.trans (.change (.insertConstant { w' with constants := w'.constants.add e } c
      w'.constants.next (Pool.has_next_add ..) ?_ (later.acts c rfl)))
    show (w'.context c).constants.find? (withoutSeparator
      ((w'.constants.add e).get w'.constants.next).name) = none
    rw [fresh]
    exact absent

end ConstantRegistry

end ScriptHost
