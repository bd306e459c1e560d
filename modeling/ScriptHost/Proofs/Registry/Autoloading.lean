import ScriptHost.Proofs.Registry.Refusal
import ScriptHost.Proofs.Registry.Stability

set_option autoImplicit false

namespace ScriptHost

open Run

variable {τ σ : Type} {c : ContextId} {name : Bytes} {k : ClassId}

def World.classAt (w : World τ) (c : ContextId) (name : Bytes) : Option ClassId :=
  ((w.context c).classes.get? (withoutSeparator name).lower).or
    (((w.scopeOf c).classes.get? (withoutSeparator name).lower).filter
      fun k => (w.classes.get k).isStatic)

section Search

variable (c name) (running : List Operation)

inductive World.HandsOut (w : World σ) (k : ClassId) :
    List (Moment σ) → Except Signal (Option ClassId) → Prop
  | held (here : (w.context c).classes.get? (withoutSeparator name).lower = some k) :
      HandsOut w k [] (.ok (some k))
  | hookless (absent : (w.context c).classes.get? (withoutSeparator name).lower = none)
      (own : (w.classes.get k).onEnter = none) : HandsOut w k [] (.ok (some k))
  | hook (absent : (w.context c).classes.get? (withoutSeparator name).lower = none)
      (hook : Callback) (own : (w.classes.get k).onEnter = some hook)
      (result : Except Signal (Option Failure)) (v : World σ)
      (outcome : Except Signal (Option ClassId))
      (fine : result = .ok none → outcome = .ok (some k))
      (failed : result ≠ .ok none → outcome.isOk = false) :
      HandsOut w k [⟨.called (.enterClass hook c), running, w.insertClass c k⟩,
        ⟨.answered (.enterClass hook c) result, running, v⟩] outcome

inductive Autoloader.Serves (a : Autoloader) (w : World σ) :
    List (Moment σ) → Except Signal (Option ClassId) → World σ → Prop
  | broken (codeless : a.call? w c name = none) : Serves a w [] (.error (.failure .fault)) w
  | unwound (call : Call) (asked : a.call? w c name = some call) (signal : Signal) (v : World σ) :
      Serves a w [⟨.called call, running, w⟩, ⟨.answered call (.error signal), running, v⟩]
        (.error signal) v
  | fruitless (call : Call) (asked : a.call? w c name = some call) (answer : call.Answer)
      (v : World σ) (nowhere : v.classAt c name = none) :
      Serves a w [⟨.called call, running, w⟩, ⟨.answered call (.ok answer), running, v⟩] (.ok none) v
  | fruitful (call : Call) (asked : a.call? w c name = some call) (answer : call.Answer)
      (v : World σ) (k : ClassId) (there : v.classAt c name = some k) (more : List (Moment σ))
      (outcome : Except Signal (Option ClassId))
      (handsOut : v.HandsOut c name running k more outcome) :
      Serves a w (⟨.called call, running, w⟩ :: ⟨.answered call (.ok answer), running, v⟩ :: more)
        outcome v

inductive World.Searches : List Autoloader → World σ → List (Moment σ) →
    Except Signal (Option ClassId) → Prop
  | last (a : Autoloader) (rest : List Autoloader) {w v : World σ} {moments : List (Moment σ)}
      {outcome : Except Signal (Option ClassId)}
      (serves : a.Serves c name running w moments outcome v) (ends : outcome ≠ .ok none) :
      Searches (a :: rest) w moments outcome
  | next (a : Autoloader) (rest : List Autoloader) {w v : World σ} {moments more : List (Moment σ)}
      {outcome : Except Signal (Option ClassId)}
      (serves : a.Serves c name running w moments (.ok none) v)
      (later : Searches rest v more outcome) : Searches (a :: rest) w (moments ++ more) outcome
  | fallback (a : Autoloader) {w v : World σ} {moments : List (Moment σ)}
      {outcome : Except Signal (Option ClassId)} (has : (w.context c).autoload.fallback = some a)
      (serves : a.Serves c name running w moments outcome v) : Searches [] w moments outcome
  | exhausted {w : World σ} (lacks : (w.context c).autoload.fallback = none) :
      Searches [] w [] (.ok none)

end Search

theorem World.HandsOut.ne_none {running : List Operation} {w : World σ} {moments : List (Moment σ)}
    {outcome : Except Signal (Option ClassId)}
    (handsOut : w.HandsOut c name running k moments outcome) : outcome ≠ .ok none := by
  rintro rfl
  cases handsOut with
  | hook absent hook own result v outcome fine failed =>
    by_cases well : result = .ok none
    next => cases fine well
    next => cases failed well

namespace ClassRegistry

variable {h : Host (Ledger σ)} {w : Recorded σ}

theorem find_nowhere (nowhere : w.classAt c name = none) : find h c name w = (.ok none, w) := by
  obtain ⟨absent, unshared⟩ := Option.or_eq_none_iff.1 nowhere
  rw [find, findLower_absent h absent, unshared]
  rfl

variable (nests : h.Nests)
include nests

theorem find_handsOut (ready : w.Ready [c] (some c)) (there : w.classAt c name = some k) :
    w.unrecorded.HandsOut c name w.embedder.running k (w.direct (find h c name w).2)
      (find h c name w).1 := by
  rcases Option.or_eq_some_iff.1 there with here | ⟨absent, shared⟩
  · rw [find_loaded h c w here, World.direct_of_same rfl]
    exact .held here
  · obtain ⟨declared, isStatic⟩ := Option.filter_eq_some_iff.1 shared
    have known := ((ready.sound.scopes _).classes _ k declared).1
    have entering : find h c name w = (enter h c k >>= fun _ => pure (some k)) w := by
      rw [find, findLower_absent h absent, shared]
      rfl
    rw [entering]
    cases own : (w.classes.get k).onEnter with
    | none =>
      have silent : w.direct (w.insertClass c k) = [] := World.direct_of_same rfl
      rw [bind_ok (enter_hookless h c w own), pure_apply]
      exact silent ▸ .hookless (w := w.unrecorded) absent own
    | some hook =>
      obtain ⟨result, v, -, direct, entered⟩ := enter_calls nests ready known own
      rw [bind_apply, entered]
      -- the failure of a hook that has returned is raised, which calls nothing
      rcases result with signal | _ | f
      · exact direct ▸ .hook (w := w.unrecorded) absent hook own (.error signal) _ _ (by simp) fun _ => rfl
      · exact direct ▸ .hook (w := w.unrecorded) absent hook own (.ok none) _ _ (fun _ => rfl) (by simp)
      · rw [concludeEnter, Diagnostics.raiseText_fatal h c (by decide) (by decide)]
        exact direct ▸ .hook (w := w.unrecorded) absent hook own (.ok (some f)) _ _ (by simp) fun _ => rfl

theorem load_calls (ready : w.Ready [c] (some c)) (a : Autoloader)
    (first : (w.busy c).head? = some name.lower) :
    (a.call? w c name = none ∧ load h c a name w = (.error (.failure .fault), w)) ∨
    ∃ (call : Call) (outcome : Except Signal call.Answer) (v : Recorded σ),
      a.call? w c name = some call ∧
      load h c a name w = (outcome.map fun _ => (), v.note (.answered call outcome)) ∧
      (v.note (.answered call outcome)).Ready [c] (some c) ∧
      w.direct (v.note (.answered call outcome)) =
        [⟨.called call, w.embedder.running, w.unrecorded⟩,
          ⟨.answered call outcome, w.embedder.running, v.unrecorded⟩] := by
  have course := load_course nests.follows ready a first
  have later := course.ready ready
  obtain none | ⟨k, asked, same⟩ | ⟨k, asked, same⟩ := load_cases h c w a name
  · exact .inl none
  all_goals
    obtain ⟨outcome, v, answered, -, direct⟩ := nests.answered _ ready
    rw [same, answered] at later
    refine .inr ⟨_, outcome, v, asked, ?_, later, direct⟩
    rw [same, answered]
    cases outcome <;> rfl

theorem load_serves (ready : w.Ready [c] (some c)) (a : Autoloader)
    (first : (w.busy c).head? = some name.lower) :
    ∃ (outcome : Except Signal (Option ClassId)) (u : Recorded σ) (v : World σ),
      (load h c a name >>= fun _ => find h c name) w = (outcome, u) ∧
      a.Serves c name w.embedder.running w.unrecorded (w.direct u) outcome v ∧
      (outcome = .ok none → u.unrecorded = v) ∧ Course [c] w u := by
  have course := load_course nests.follows ready a first
  obtain ⟨codeless, loaded⟩ | ⟨call, outcome, v, asked, loaded, later, direct⟩ :=
    load_calls nests ready a first <;> rw [loaded] at course
  · have silent : w.direct w = [] := World.direct_of_same rfl
    refine ⟨.error (.failure .fault), w, w.unrecorded, by rw [bind_apply, loaded], ?_, nofun, course⟩
    rw [silent]
    exact .broken (w := w.unrecorded) codeless
  -- what the loader has answered is ignored: the search goes on as soon as it has returned
  rcases outcome with signal | answer
  · refine ⟨.error signal, _, v.unrecorded, by rw [bind_apply, loaded]; rfl, ?_, nofun, course⟩
    rw [direct]
    exact .unwound (w := w.unrecorded) call asked signal _
  have searched := find_follows nests.follows c name [c] _ later
  have running : v.embedder.running = w.embedder.running := course.running
  cases there : (v.note (.answered call (.ok answer))).classAt c name with
  | none =>
    refine ⟨_, _, v.unrecorded, (bind_ok loaded).trans (find_nowhere there), ?_, fun _ => rfl, course⟩
    rw [direct]
    exact .fruitless (w := w.unrecorded) call asked answer _ there
  | some k =>
    have handed := find_handsOut nests later there
    rcases result : find h c name (v.note (.answered call (.ok answer))) with ⟨outcome, u⟩
    rw [result] at handed searched
    refine ⟨outcome, u, v.unrecorded, (bind_ok loaded).trans result, ?_,
      fun none => absurd none handed.ne_none, course.trans searched⟩
    rw [course.direct_trans searched, direct, ← running]
    exact .fruitful (w := w.unrecorded) call asked answer v.unrecorded k there _ _ handed

theorem tryLoaders_searches (ready : w.Ready [c] (some c)) (loaders : List Autoloader)
    (first : (w.busy c).head? = some name.lower) :
    World.Searches c name w.embedder.running loaders w.unrecorded
      (w.direct (tryLoaders h c name loaders w).2) (tryLoaders h c name loaders w).1 := by
  induction loaders generalizing w with
  | nil =>
    rw [tryLoaders, bind_ok (context_apply w c)]
    cases fallback : (w.context c).autoload.fallback with
    | none =>
      have silent : w.direct w = [] := World.direct_of_same rfl
      dsimp only
      rw [pure_apply, silent]
      exact .exhausted fallback
    | some a =>
      obtain ⟨outcome, u, v, served, serves, -⟩ := load_serves nests ready a first
      dsimp only
      rw [served]
      exact .fallback a fallback serves
  | cons a rest ih =>
    obtain ⟨outcome, u, v, served, serves, left, course⟩ := load_serves nests ready a first
    -- a loader and the search behind it are one round, and the others are tried when it is
    -- fruitless
    have whole : tryLoaders h c name (a :: rest) =
        (load h c a name >>= fun _ => find h c name) >>= fun found =>
          found.elim (tryLoaders h c name rest) fun k => pure (some k) := by
      rw [tryLoaders, bind_assoc]
      refine bind_congr fun _ => bind_congr fun found => ?_
      cases found <;> rfl
    rw [whole, bind_apply, served]
    rcases outcome with signal | _ | k
    · exact .last a rest serves fun found => by cases found
    · have later := course.ready ready
      have rest' := tryLoaders_course nests.follows later (by rwa [course.busy]) rest
      have searches := ih later (by rwa [course.busy])
      dsimp only [Option.elim]
      rw [course.direct_trans rest']
      refine .next a rest serves ?_
      rwa [left rfl, course.running] at searches
    · exact .last a rest serves fun found => by cases found

theorem fetch_loads (ready : w.Ready [c] (some c)) (nowhere : w.classAt c name = none)
    (valid : isLoadable (withoutSeparator name))
    (free : (withoutSeparator name).lower ∉ w.busy c) :
    World.Searches c (withoutSeparator name) w.embedder.running (w.context c).autoload.loaders
      (w.updateLoaders c (·.enter (withoutSeparator name).lower)).unrecorded
      (w.direct (fetch h c name w).2) (fetch h c name w).1 := by
  obtain ⟨outcome, v, tried, loaded⟩ := autoload_able h c w valid free
  obtain ⟨entered, first⟩ := ready_enter ready (withoutSeparator name)
  have searches := tryLoaders_searches nests entered (w.context c).autoload.loaders first
  rw [tried] at searches
  rw [fetch, bind_ok (find_nowhere nowhere)]
  dsimp only
  rw [loaded]
  exact searches

omit nests in
theorem fetch_idle (nowhere : w.classAt c name = none)
    (unable : ¬ (isLoadable (withoutSeparator name) ∧ (withoutSeparator name).lower ∉ w.busy c)) :
    fetch h c name w = (.ok none, w) := by
  rw [fetch, bind_ok (find_nowhere nowhere)]
  exact autoload_unable h c w unable

end ClassRegistry

structure World.Loads (w : Recorded σ) (c : ContextId) (name : Bytes)
    (outcome : Except Signal (Option ClassId)) (w' : Recorded σ) : Prop where
  able : ClassRegistry.isLoadable (withoutSeparator name) →
    (withoutSeparator name).lower ∉ w.busy c →
    World.Searches c (withoutSeparator name) w.embedder.running (w.context c).autoload.loaders
      (w.updateLoaders c (·.enter (withoutSeparator name).lower)).unrecorded (w.direct w') outcome
  busy : (withoutSeparator name).lower ∈ w.busy c → outcome = .ok none ∧ w' = w
  invalid : ClassRegistry.isLoadable (withoutSeparator name) = false → outcome = .ok none ∧ w' = w

theorem Operation.fetch_loads {h : Host (Ledger σ)} (nests : h.Nests) {w w' : Recorded σ}
    (sound : w.Sound) (there : w.contexts.has c) (nowhere : w.classAt c name = none)
    {outcome : Except Signal (Option ClassId)}
    (asked : (act c (.fetchClass name)).request h w = (outcome, w')) :
    w.Loads c name outcome w' := by
  have grounded : (act c (.fetchClass name)).isGrounded w := by simp [isGrounded, Action.isGrounded, there]
  rw [request, if_pos grounded] at asked
  have asked : ClassRegistry.fetch h c name w = (outcome, w') := asked
  have idle (unable : ¬ (ClassRegistry.isLoadable (withoutSeparator name) ∧
      (withoutSeparator name).lower ∉ w.busy c)) : outcome = .ok none ∧ w' = w := by
    rw [ClassRegistry.fetch_idle nowhere unable] at asked
    cases asked
    exact ⟨rfl, rfl⟩
  refine ⟨fun valid free => ?_, fun busy => idle fun able => able.2 busy, fun invalid => idle ?_⟩
  · have searches := ClassRegistry.fetch_loads nests (sound.readyFor there) nowhere valid free
    rwa [asked] at searches
  · rw [invalid]
    exact fun able => Bool.false_ne_true able.1

theorem World.IsTidy.busy_of_due {w : World τ} (tidy : w.IsTidy) {event : Event} (due : w.IsDue event)
    (wanted : event.wanted? = some (c, name)) :
    ∃ rest, w.busy c = name.lower :: rest ∧ name.lower ∉ rest := by
  obtain ⟨rest, same⟩ := List.head?_eq_some_iff.1 (due c name wanted)
  have distinct := (tidy c).busy
  rw [show (w.context c).autoload.busy = w.busy c from rfl, same, List.nodup_cons] at distinct
  exact ⟨rest, same, distinct.1⟩

/-- Loaders in every run. No two of a context have the same key, and whenever one is called, and when
it returns, its class is being loaded, and not twice. What is being loaded stays so while an operation
runs, and is all that is being loaded when the operation ends, however it does. A fetch of a class
that its context does not have calls the loaders that the context has at the start, as a search does;
if the class is being loaded already, or its name is no name, nothing happens and nothing is found. -/
theorem Script.loading_guarded (s : Script σ) (depth : Nat) :
    (∀ (ρ : Type) (code : Code σ ρ) (files : FileTree) (own : σ),
      ((code.run (s.host depth) (.start files own)).2.Sound ∧
        (code.run (s.host depth) (.start files own)).2.IsTidy) ∧
      ∀ m ∈ s.journal depth code files own, (m.world.Sound ∧ m.world.IsTidy) ∧
        ∀ c name, m.event.wanted? = some (c, name) →
          ∃ rest, m.world.busy c = name.lower :: rest ∧ name.lower ∉ rest) ∧
    ∀ w : Recorded σ, w.Sound →
      (∀ (w' : Recorded σ) (o : Operation) (outcome : Except Signal o.Result), w.IsTidy →
        o.request (s.host depth) (w.begin o) = (outcome, w') →
        w'.IsTidy ∧ ∀ c, w'.busy c = w.busy c ∧ ∀ m ∈ w.since w', w.busy c <:+ m.world.busy c) ∧
      ∀ (c : ContextId) (name : Bytes) (outcome : Except Signal (Option ClassId)) (w' : Recorded σ),
        w.contexts.has c → w.classAt c name = none →
        (Operation.act c (.fetchClass name)).request (s.host depth) (w.begin (.act c (.fetchClass name)))
          = (outcome, w') → (w.begin (.act c (.fetchClass name))).Loads c name outcome w' := by
  have nests := s.host_nests depth
  refine ⟨fun ρ code files own => ?_, fun w sound => ⟨fun w' o outcome tidy asked => ?_, ?_⟩⟩
  · have course := s.course depth code files own
    obtain ⟨tidy, new, journal, each⟩ :=
      course.timely (World.start_isTidy files own) fun c => List.suffix_rfl
    refine ⟨⟨course.sound (World.start_sound files own), tidy⟩, fun m member => ?_⟩
    have timely := each m (by rwa [Script.journal, journal] at member)
    exact ⟨⟨(Script.regular_of_journal member).sound, timely.tidy⟩, fun c name wanted =>
      timely.tidy.busy_of_due timely.due wanted⟩
  · have course := Operation.request_within nests.follows sound.ready o
    rw [asked] at course
    obtain ⟨ended, adds⟩ := course.timely tidy fun c => List.suffix_rfl
    exact ⟨ended, fun c => ⟨course.busy c, fun m member =>
      (World.Adds.since adds m member).stays c⟩⟩
  · intro c name outcome w' there nowhere asked
    exact Operation.fetch_loads nests (sound.begin _) there nowhere asked

def roundabout : Script Unit where
  patience := 1
  code
    | .autoload ⟨0⟩ c _ =>
      .each () [.act c (.fetchClass "\\FOO"), .act c (.addLoader ⟨"m", .callback ⟨2⟩⟩ true)]
    | .autoload ⟨1⟩ c _ => .each () [.act c (.registerClass ⟨0⟩)]
    | _ => .done (.error .exhausted)

def beforeRoundabout : Code Unit Unit :=
  .each () (oneContext ++ [newPlainClass "Foo",
    .act ⟨0⟩ (.addLoader ⟨"k", .callback ⟨1⟩⟩ false), .act ⟨0⟩ (.addLoader ⟨"l", .callback ⟨0⟩⟩ true),
    .act ⟨0⟩ (.addLoader ⟨"k", .callback ⟨2⟩⟩ true)])

def roundaboutStart : Recorded Unit :=
  (beforeRoundabout.run (roundabout.host 3) (.start (FileTree.make "/") ())).2

abbrev fetchFoo : Operation := .act ⟨0⟩ (.fetchClass "\\Foo")

def roundaboutFetch : Except Signal (Option ClassId) × Recorded Unit :=
  fetchFoo.request (roundabout.host 3) (roundaboutStart.begin fetchFoo)

theorem roundaboutFetch_asked :
    fetchFoo.request (roundabout.host 3) (roundaboutStart.begin fetchFoo) =
      (roundaboutFetch.1, roundaboutFetch.2) := by
  rw [Prod.eta, roundaboutFetch]

theorem loading_guarded_roundabout :
    (roundaboutStart.Sound ∧ roundaboutStart.IsTidy ∧ roundaboutStart.contexts.has ⟨0⟩) ∧
    roundaboutStart.classAt ⟨0⟩ "\\Foo" = none ∧
    (roundaboutFetch.1.toOption = some (some ⟨0⟩) ∧
      ((roundaboutStart.begin fetchFoo).direct roundaboutFetch.2).length = 4 ∧
      (roundaboutFetch.2.context ⟨0⟩).autoload.loaders.length = 3) ∧
    (roundaboutStart.begin fetchFoo).Loads ⟨0⟩ "\\Foo" roundaboutFetch.1 roundaboutFetch.2 ∧
    ∀ c, roundaboutFetch.2.busy c = roundaboutStart.busy c := by
  obtain ⟨runs, worlds⟩ := roundabout.loading_guarded 3
  have start : roundaboutStart.Sound ∧ roundaboutStart.IsTidy :=
    (runs Unit beforeRoundabout (FileTree.make "/") ()).1
  obtain ⟨operations, fetches⟩ := worlds roundaboutStart start.1
  have there : roundaboutStart.contexts.has ⟨0⟩ := by decide +kernel
  have nowhere : roundaboutStart.classAt ⟨0⟩ "\\Foo" = none := by decide +kernel
  have asked := roundaboutFetch_asked
  refine ⟨⟨start.1, start.2, there⟩, nowhere, by decide +kernel, ?_, ?_⟩
  · exact fetches ⟨0⟩ "\\Foo" _ _ there nowhere asked
  · exact fun c => ((operations _ fetchFoo _ start.2 asked).2 c).1

end ScriptHost
