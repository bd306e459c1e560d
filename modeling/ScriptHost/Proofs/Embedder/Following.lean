import ScriptHost.Proofs.Embedder.Soundness

set_option autoImplicit false

namespace ScriptHost

variable {σ α β : Type} {making : List ContextId} {home : Option ContextId}

namespace Event

variable {event : Event}

theorem isEnd_of_isPlain (plain : event.isPlain) : event.isEnd = false := by
  cases event with
  | finished => cases plain
  | _ => rfl

theorem isEnd_of_loaded {c : ContextId} {source : Source} {m : ModuleId}
    (loaded : event.loaded = some (c, source, m)) : event.isEnd = false := by
  cases event with
  | finished => cases loaded
  | _ => rfl

theorem ne_finished (inside : event.isEnd = false) (o : Operation)
    (outcome : Except Signal o.Result) : event ≠ .finished o outcome := by
  rintro rfl
  cases inside

end Event

theorem World.popFrame_embedder (w : Recorded σ) (c : ContextId) :
    (w.popFrame c).embedder = w.embedder := by
  unfold World.popFrame
  split <;> rfl

theorem World.journal_popFrame (w : Recorded σ) (c : ContextId) :
    w.embedder.journal <+: (w.popFrame c).embedder.journal := by
  simp only [World.popFrame_embedder, List.prefix_rfl]

theorem World.Concluded.journal {w w' : Recorded σ} {s : ScopeId} {source : Source} {m : ModuleId}
    (ended : w.Concluded s source m w') : w.embedder.journal <+: w'.embedder.journal := by
  simp only [ended.embedder, List.prefix_rfl]

theorem Change.running {w w' : Recorded σ} (step : Change making w w') :
    w'.embedder.running = w.embedder.running := by
  cases step with
  | popCall c => exact congrArg Ledger.running (w.popFrame_embedder c)
  | _ => rfl

theorem World.popFrame_scopes {τ : Type} (w : World τ) (c : ContextId) :
    (w.popFrame c).scopes = w.scopes := by
  unfold World.popFrame
  split <;> rfl

theorem World.popFrame_modules {τ : Type} (w : World τ) (c : ContextId) :
    (w.popFrame c).modules = w.modules := by
  unfold World.popFrame
  split <;> rfl

theorem World.leaveHook_modules (w : Recorded σ) (c : ContextId) (lower : Bytes) (hook : Callback)
    (outcome : Except Signal (Option Failure)) :
    (w.leaveHook c lower hook outcome).modules = w.modules := by
  unfold World.leaveHook
  split <;> rfl

theorem World.leaveHook_scopes (w : Recorded σ) (c : ContextId) (lower : Bytes) (hook : Callback)
    (outcome : Except Signal (Option Failure)) :
    (w.leaveHook c lower hook outcome).scopes = w.scopes := by
  unfold World.leaveHook
  split <;> rfl

theorem World.leaveHook_running (w : Recorded σ) (c : ContextId) (lower : Bytes) (hook : Callback)
    (outcome : Except Signal (Option Failure)) :
    (w.leaveHook c lower hook outcome).embedder.running = w.embedder.running := by
  unfold World.leaveHook
  split <;> rfl

theorem Course.running {w w' : Recorded σ} (course : Course making w w') :
    w'.embedder.running = w.embedder.running := by
  induction course with
  | still | operation => rfl
  | change step => exact step.running
  | trans _ _ first rest => exact rest.trans first
  | frame c f _ _ ih => rw [World.popFrame_embedder, ih]; rfl
  | autoload _ _ _ _ _ _ ih => exact ih
  | destructor c o k f _ _ _ retires _ _ ih =>
    rw [World.popFrame_embedder, ih]
    exact retires.running
  | hook c k k' _ _ _ _ outcome _ _ _ ih => rw [World.leaveHook_running, ih]; rfl
  | registration _ _ _ _ _ _ ih => exact ih
  | attempt _ _ _ _ ih => exact ih
  | loading _ _ _ _ _ _ _ _ _ _ ended before after =>
    exact (congrArg Ledger.running ended.embedder).trans (after.trans before)
  | creation _ _ _ _ _ ih => exact ih

theorem Change.journal {w w' : Recorded σ} (step : Change making w w') :
    w.embedder.journal <+: w'.embedder.journal := by
  cases step with
  | note event => exact List.prefix_append _ _
  | popCall c => exact w.journal_popFrame c
  | _ => exact List.prefix_rfl

theorem World.journal_leaveHook (w : Recorded σ) (c : ContextId) (lower : Bytes) (hook : Callback)
    (outcome : Except Signal (Option Failure)) :
    (w.leaveHook c lower hook outcome).embedder.journal =
      (w.note (.answered (.enterClass hook c) outcome)).embedder.journal := by
  unfold World.leaveHook
  split <;> rfl

theorem World.prefix_leaveHook (w : Recorded σ) (c : ContextId) (lower : Bytes) (hook : Callback)
    (outcome : Except Signal (Option Failure)) :
    w.embedder.journal <+: (w.leaveHook c lower hook outcome).embedder.journal := by
  rw [World.journal_leaveHook]
  exact List.prefix_append _ _

theorem Course.journal {w w' : Recorded σ} (course : Course making w w') :
    w.embedder.journal <+: w'.embedder.journal := by
  induction course with
  | still => exact List.prefix_rfl
  | change step => exact step.journal
  | trans _ _ first rest => exact first.trans rest
  | operation o outcome _ _ _ ih => exact ih.trans (List.prefix_append _ _)
  | frame c f _ _ ih => rwa [World.popFrame_embedder]
  | autoload _ _ _ _ _ _ ih => exact ih
  | destructor c o k f _ _ _ retires _ _ ih =>
    rw [World.popFrame_embedder, ← retires.journal]
    exact (List.prefix_append _ _).trans ih
  | hook c k k' _ _ _ _ outcome _ _ _ ih =>
    exact (List.prefix_append _ _).trans (ih.trans (World.prefix_leaveHook _ c _ k' outcome))
  | registration _ _ _ _ _ _ ih => exact ih
  | attempt _ _ _ _ ih => exact ih
  | @loading _ w u v w' c source _ _ _ _ event m _ _ ended before after =>
    exact before.trans ((List.prefix_append _ _).trans (after.trans ended.journal))
  | creation _ _ _ _ _ ih => exact ih

theorem World.has_updateContext {τ : Type} (w : World τ) (c d : ContextId) (f : Context → Context) :
    (w.updateContext c f).contexts.has d = w.contexts.has d :=
  Pool.has_modify ..

theorem World.has_popFrame {τ : Type} (w : World τ) (c d : ContextId) :
    (w.popFrame c).contexts.has d = w.contexts.has d := by
  unfold World.popFrame
  split
  next => rfl
  next => exact w.has_updateContext c d _

theorem World.has_leaveHook (w : Recorded σ) (c d : ContextId) (lower : Bytes) (hook : Callback)
    (outcome : Except Signal (Option Failure)) :
    (w.leaveHook c lower hook outcome).contexts.has d = w.contexts.has d := by
  unfold World.leaveHook
  split
  next => exact (w.note _).has_updateContext c d _
  next => rfl

theorem Change.has_context {w w' : Recorded σ} (step : Change making w w') (d : ContextId) :
    w'.contexts.has d = w.contexts.has d := by
  cases step with
  | popCall c => exact w.has_popFrame c d
  | adjust c | pushCall c | assign c | remember c | close c | loadClass c | cacheFunction c
  | insertFunction c | mergeFunctions c | cacheConstant c | insertConstant c | inherit c | reclaim c
  | drain c | track c => exact w.has_updateContext c d _
  | _ => rfl

theorem World.HasHandedOut.later {w w' : Recorded σ} {c : ContextId} (out : w.HasHandedOut c)
    (journal : w.embedder.journal <+: w'.embedder.journal) : w'.HasHandedOut c := by
  obtain ⟨m, member, holds⟩ := out
  exact ⟨m, journal.subset member, holds⟩

theorem Operation.Delivers.handedOut {w w' : Recorded σ} {o : Operation}
    {outcome : Except Signal o.Result} (delivers : o.Delivers w outcome w') (creates : o.creates)
    {c : ContextId} (there : w'.contexts.has c) (running : List Operation) :
    w.contexts.has c ∨ (w'.finish running o outcome).HasHandedOut c := by
  have ended {event : Event} (here : event.returned = some c ∨ event.isLoss)
      (last : (⟨event, running, w'.unrecorded⟩ : Moment σ) ∈
        (w'.finish running o outcome).embedder.journal) :
      (w'.finish running o outcome).HasHandedOut c := ⟨_, last, here⟩
  have last : (⟨.finished o outcome, running, w'.unrecorded⟩ : Moment σ) ∈
      (w'.finish running o outcome).embedder.journal :=
    List.mem_append_right _ List.mem_cons_self
  cases o with
  | newContext | newChild =>
    cases outcome with
    | error signal => exact .inr (ended (.inr rfl) last)
    | ok d =>
      rcases (delivers.makes rfl).others c there with old | rfl | out
      · exact .inl old
      · exact .inr (ended (.inl rfl) last)
      · exact .inr (out.later (List.prefix_append _ _))
  | _ => cases creates

theorem Course.handedOut {w w' : Recorded σ} (course : Course making w w')
    (apart : making = [] → w.embedder.running.head?.any Operation.creates = false) {c : ContextId}
    (there : w'.contexts.has c) : w.contexts.has c ∨ w'.HasHandedOut c := by
  induction course with
  | still => exact .inl there
  | change step => exact .inl (step.has_context c ▸ there)
  | trans first rest ih ih' =>
    rcases ih' (first.running ▸ apart) there with between | out
    · exact (ih apart between).imp_right (·.later rest.journal)
    · exact .inr out
  | @operation _ w w' o outcome inner delivers _ ih =>
    cases creates : o.creates with
    | true => exact delivers.handedOut creates there _
    | false => exact (ih (fun _ => creates) there).imp_right (·.later (List.prefix_append _ _))
  | @frame _ w w' d f _ _ ih =>
    rw [World.has_popFrame] at there
    rw [World.HasHandedOut, World.popFrame_embedder]
    exact (ih apart there).imp_left (w.has_updateContext d c _ ▸ ·)
  | @autoload _ w w' d _ _ _ _ _ ih =>
    rw [World.updateLoaders, World.has_updateContext] at there
    exact (ih apart there).imp_left (w.has_updateContext d c _ ▸ ·)
  | @destructor making w v w' d o k f _ _ _ retires _ _ ih =>
    rw [World.has_popFrame] at there
    rw [World.HasHandedOut, World.popFrame_embedder, ← retires.has_context]
    have apart' : making = [] → v.embedder.running.head?.any Operation.creates = false :=
      retires.running ▸ apart
    exact (ih apart' there).imp_left (v.has_updateContext d c _ ▸ ·)
  | @hook _ w w' d k k' _ _ _ _ outcome _ _ handedOut =>
    rw [World.has_leaveHook] at there
    exact (handedOut c there).imp_right (·.later (w'.prefix_leaveHook ..))
  | @registration _ w w' d m _ _ _ _ ih =>
    rw [World.recordModule, World.has_updateContext] at there
    exact ih apart there
  | attempt _ _ _ _ ih => exact ih apart there
  | @loading _ w u v w' d source _ _ _ before event m _ after ended ih ih' =>
    have within : v.contexts.has c := ended.contexts ▸ there
    have out {x : Recorded σ} (early : x.HasHandedOut c)
        (journal : x.embedder.journal <+: v.embedder.journal) : w'.HasHandedOut c :=
      early.later (journal.trans ended.journal)
    rcases ih' (before.running ▸ apart) within with between | late
    · exact (ih apart between).imp_right
        (out · ((List.prefix_append _ _).trans after.journal))
    · exact .inr (out late List.prefix_rfl)
  -- only the making of a context makes one by itself
  | creation s sink _ asked _ ih =>
    rw [apart rfl] at asked
    cases asked

structure World.Ready (w : Recorded σ) (making : List ContextId) (home : Option ContextId) :
    Prop where
  sound : w.Sound
  known : ∀ c ∈ making, w.contexts.has c
  present : ∀ c, home = some c → w.contexts.has c
  acts : ∀ c, home = some c → w.ActsFor making c

theorem World.ActsFor.later {w w' : Recorded σ} {c : ContextId} (acts : w.ActsFor making c)
    (running : w'.embedder.running = w.embedder.running) : w'.ActsFor making c := by
  rwa [World.ActsFor, running]

theorem World.Ready.later {w w' : Recorded σ} (ready : w.Ready making home) (sound : w'.Sound)
    (later : w.Extends w') (running : w'.embedder.running = w.embedder.running) :
    w'.Ready making home :=
  ⟨sound, later.all_has ready.known,
    fun c same => (later.contexts c (ready.present c same)).1,
    fun c same => (ready.acts c same).later running⟩

theorem Course.ready {w w' : Recorded σ} (course : Course making w w')
    (ready : w.Ready making home) : w'.Ready making home :=
  ready.later (course.sound ready.sound) course.extends course.running

theorem World.Sound.ready {w : Recorded σ} (sound : w.Sound) : w.Ready [] none :=
  ⟨sound, List.forall_mem_nil _, fun _ same => (nomatch same), fun _ same => (nomatch same)⟩

theorem World.Ready.at {w : Recorded σ} (ready : w.Ready making home) {c : ContextId}
    (there : w.contexts.has c) (acts : w.ActsFor making c) : w.Ready making (some c) :=
  ⟨ready.sound, ready.known, fun _ same => Option.some.inj same ▸ there,
    fun _ same => Option.some.inj same ▸ acts⟩

theorem World.Sound.readyFor {w : Recorded σ} (sound : w.Sound) {c : ContextId}
    (there : w.contexts.has c) : w.Ready [c] (some c) :=
  have here : ∀ d, some c = some d → c = d := fun _ same => Option.some.inj same
  ⟨sound, fun _ member => List.mem_singleton.1 member ▸ there, fun d same => here d same ▸ there,
    fun d same => .inl (here d same ▸ List.mem_singleton.2 rfl)⟩

def World.Adds (P : Moment σ → Prop) (w w' : Recorded σ) : Prop :=
  ∃ new, w'.embedder.journal = w.embedder.journal ++ new ∧ ∀ m ∈ new, P m

namespace World.Adds

variable {P : Moment σ → Prop} {u v w : Recorded σ}

theorem of_same (same : w.embedder.journal = v.embedder.journal) : v.Adds P w :=
  ⟨[], by rw [same, List.append_nil], List.forall_mem_nil _⟩

theorem note (w : Recorded σ) {e : Event}
    (holds : P ⟨e, w.embedder.running, w.unrecorded⟩) : w.Adds P (w.note e) :=
  ⟨[_], rfl, List.forall_mem_singleton.2 holds⟩

theorem trans (first : u.Adds P v) (rest : v.Adds P w) : u.Adds P w := by
  obtain ⟨new, journal, each⟩ := first
  obtain ⟨new', journal', each'⟩ := rest
  refine ⟨new ++ new', by rw [journal', journal, List.append_assoc], fun m member => ?_⟩
  exact (List.mem_append.1 member).elim (each m) (each' m)

theorem imp {Q : Moment σ → Prop} (adds : u.Adds P w) (less : ∀ m, P m → Q m) : u.Adds Q w := by
  obtain ⟨new, journal, each⟩ := adds
  exact ⟨new, journal, fun m member => less m (each m member)⟩

theorem of_event {event : Event} (same : v.embedder = u.embedder)
    (holds : P ⟨event, u.embedder.running, v.unrecorded⟩) (rest : (v.note event).Adds P w) :
    u.Adds P w :=
  (of_same (congrArg Ledger.journal same)).trans ((note v (same ▸ holds)).trans rest)

theorem popFrame (adds : u.Adds P w) (c : ContextId) : u.Adds P (w.popFrame c) :=
  adds.trans (.of_same (congrArg Ledger.journal (w.popFrame_embedder c)))

theorem finish (adds : u.Adds P w) {running : List Operation} {o : Operation}
    {outcome : Except Signal o.Result}
    (holds : P ⟨.finished o outcome, running, w.unrecorded⟩) :
    u.Adds P (w.finish running o outcome) :=
  adds.trans (note { w with embedder := { w.embedder with running } } holds)

theorem leaveHook (adds : u.Adds P w) {c : ContextId} {lower : Bytes} {hook : Callback}
    {outcome : Except Signal (Option Failure)}
    (holds : P ⟨.answered (.enterClass hook c) outcome, w.embedder.running, w.unrecorded⟩) :
    u.Adds P (w.leaveHook c lower hook outcome) :=
  adds.trans ((note w holds).trans (.of_same (w.journal_leaveHook c lower hook outcome)))

theorem split (adds : u.Adds P w) (first : u.embedder.journal <+: v.embedder.journal)
    (rest : v.embedder.journal <+: w.embedder.journal) : u.Adds P v ∧ v.Adds P w := by
  obtain ⟨new, journal, each⟩ := adds
  obtain ⟨early, same⟩ := first
  obtain ⟨late, same'⟩ := rest
  rw [← same', ← same, List.append_assoc] at journal
  obtain rfl := List.append_cancel_left journal
  exact ⟨⟨early, same.symm, fun m member => each m (List.mem_append_left _ member)⟩,
    ⟨late, same'.symm, fun m member => each m (List.mem_append_right _ member)⟩⟩

theorem of_note {event : Event} (adds : u.Adds P (u.note event)) :
    P ⟨event, u.embedder.running, u.unrecorded⟩ := by
  obtain ⟨new, journal, each⟩ := adds
  rw [← List.append_cancel_left journal] at each
  exact each _ List.mem_cons_self

theorem of_finish {running : List Operation} {o : Operation} {outcome : Except Signal o.Result}
    (inner : u.embedder.journal <+: w.embedder.journal)
    (adds : u.Adds P (w.finish running o outcome)) :
    u.Adds P w ∧ P ⟨.finished o outcome, running, w.unrecorded⟩ := by
  obtain ⟨within, last⟩ := adds.split inner (List.prefix_append _ _)
  exact ⟨within, of_note (u := { w with embedder := { w.embedder with running } }) last⟩

theorem split_event {event : Event} {w' : Recorded σ} (adds : u.Adds P w')
    (before : u.embedder.journal <+: v.embedder.journal)
    (after : (v.note event).embedder.journal <+: w.embedder.journal)
    (rest : w.embedder.journal <+: w'.embedder.journal) :
    u.Adds P v ∧ P ⟨event, v.embedder.running, v.unrecorded⟩ ∧ (v.note event).Adds P w := by
  have noted : v.embedder.journal <+: (v.note event).embedder.journal := List.prefix_append _ _
  obtain ⟨early, later⟩ := adds.split before (noted.trans (after.trans rest))
  obtain ⟨called, later⟩ := later.split noted (after.trans rest)
  exact ⟨early, called.of_note, (later.split after rest).1⟩

end World.Adds

theorem Change.adds {w w' : Recorded σ} (step : Change making w w') {P : Moment σ → Prop}
    (noted : ∀ event, event.isPlain → w.IsDue event →
      P ⟨event, w.embedder.running, w.unrecorded⟩) :
    w.Adds P w' := by
  cases step with
  | note event isPlain due => exact .note w (noted event isPlain due)
  | popCall c => exact .of_same (congrArg _ (w.popFrame_embedder c))
  | _ => exact .of_same rfl

theorem World.isRefused_leaveHook (w : Recorded σ) (c : ContextId) (lower : Bytes)
    (hook : Callback) (f : Failure) :
    ¬ (w.leaveHook c lower hook (.ok (some f))).IsUnrefused := by
  intro unrefused
  have last := unrefused ⟨.answered (.enterClass hook c) (.ok (some f)), _, w.unrecorded⟩
    (List.mem_append_right _ List.mem_cons_self)
  cases last

namespace Run

def Follows (home : Option ContextId) (m : Run (Ledger σ) α) : Prop :=
  ∀ (making : List ContextId) (w : Recorded σ), w.Ready making home → Course making w (m w).2

@[simp] theorem bind_apply {τ : Type} (m : Run τ α) (f : α → Run τ β) (w : World τ) :
    (m >>= f) w = match m w with
      | (.ok a, w') => f a w'
      | (.error signal, w') => (.error signal, w') := by
  rcases result : m w with ⟨_ | _, _⟩ <;>
    simp [bind, ExceptT.bind, ExceptT.mk, ExceptT.bindCont, StateT.bind, result]
  rfl

theorem bind_ok {τ : Type} {m : Run τ α} {f : α → Run τ β} {w w' : World τ} {a : α}
    (first : m w = (.ok a, w')) : (m >>= f) w = f a w' := by
  rw [bind_apply, first]

theorem of_bind_ok {τ : Type} {m : Run τ α} {f : α → Run τ β} {w w' : World τ} {b : β}
    (result : (m >>= f) w = (.ok b, w')) : ∃ a v, m w = (.ok a, v) ∧ f a v = (.ok b, w') := by
  rw [bind_apply] at result
  rcases first : m w with ⟨_ | a, v⟩ <;> rw [first] at result
  · cases result
  · exact ⟨a, v, rfl, result⟩

theorem of_unless_ok {τ : Type} {m : Run τ Bool} {f : Run τ α} {w w' : World τ} {a b : α}
    (fails : ∀ v v', f v ≠ (.ok a, v'))
    (result : (m >>= fun goesOn => if (!goesOn) = true then f else pure b) w = (.ok a, w')) :
    m w = (.ok true, w') := by
  obtain ⟨goesOn, v, first, rest⟩ := of_bind_ok result
  cases goesOn with
  | true =>
    cases rest
    exact first
  | false => exact absurd rest (fails v w')

@[simp] theorem pure_apply {τ : Type} (a : α) (w : World τ) : (pure a : Run τ α) w = (.ok a, w) := rfl

@[simp] theorem get_apply {τ : Type} (w : World τ) : (get : Run τ (World τ)) w = (.ok w, w) := rfl

@[simp] theorem modify_apply {τ : Type} (f : World τ → World τ) (w : World τ) :
    (modify f : Run τ Unit) w = (.ok (), f w) := rfl

theorem ensuring_apply {τ : Type} (body : Run τ α) (after : Run τ Unit) (w : World τ) :
    (ensuring body after w).2 = (after (body w).2).2 := by
  unfold ensuring
  rcases body w with ⟨result, v⟩
  rcases last : after v with ⟨_ | _, _⟩ <;> simp [last]

theorem of_ensuring_ok {τ : Type} {body : Run τ α} {after : Run τ Unit} {w w' : World τ} {a : α}
    (result : ensuring body after w = (.ok a, w')) :
    ∃ v, body w = (.ok a, v) ∧ after v = (.ok (), w') := by
  unfold ensuring at result
  rcases first : body w with ⟨outcome, v⟩
  rw [first] at result
  dsimp only at result
  rcases last : after v with ⟨_ | _, u⟩ <;> rw [last] at result <;> cases result
  exact ⟨v, rfl, last⟩

end Run

open Run

theorem Run.Follows.course {m : Run (Ledger σ) α} (follows : m.Follows home) {w w' : Recorded σ}
    (ready : w.Ready making home) {outcome : Except Signal α} (result : m w = (outcome, w')) :
    Course making w w' := by
  have course := follows making w ready
  rwa [result] at course

theorem Course.bind {m : Run (Ledger σ) α} {f : α → Run (Ledger σ) β} {w : Recorded σ}
    (ready : w.Ready making home) (first : Course making w (m w).2)
    (rest : ∀ a w', m w = (.ok a, w') → w'.Ready making home → Course making w' (f a w').2) :
    Course making w ((m >>= f) w).2 := by
  rw [bind_apply]
  have later := first.ready ready
  rcases result : m w with ⟨_ | a, w'⟩ <;> rw [result] at first later
  · exact first
  · exact first.trans (rest a w' result later)

namespace Run.Follows

theorem bind {m : Run (Ledger σ) α} {f : α → Run (Ledger σ) β} (first : m.Follows home)
    (rest : ∀ a, (f a).Follows home) : (m >>= f).Follows home := fun making w ready =>
  .bind ready (first making w ready) fun a w' _ later => rest a making w' later

theorem pure (a : α) : (Pure.pure a : Run (Ledger σ) α).Follows home := fun _ w _ => .still w

theorem map (f : α → β) {m : Run (Ledger σ) α} (inner : m.Follows home) : (f <$> m).Follows home := by
  rw [map_eq_pure_bind]
  exact .bind inner fun _ => .pure _

theorem get : (MonadState.get : Run (Ledger σ) (Recorded σ)).Follows home := fun _ w _ => .still w

theorem throw (signal : Signal) : (MonadExcept.throw signal : Run (Ledger σ) α).Follows home :=
  fun _ w _ => .still w

theorem of_read {m : Run (Ledger σ) α} (same : ∀ w, (m w).2 = w) : m.Follows home := fun _ w _ => by
  rw [same]
  exact .still w

theorem of_change {m : Run (Ledger σ) α} (step : ∀ making w, Change making w (m w).2) : m.Follows home :=
  fun making w _ => .change (step making w)

theorem of_own_change {c : ContextId} {m : Run (Ledger σ) α}
    (step : ∀ making w, w.ActsFor making c → Change making w (m w).2) : m.Follows (some c) :=
  fun making w ready => .change (step making w (ready.acts c rfl))

theorem ensuring {body : Run (Ledger σ) α} {after : Run (Ledger σ) Unit} (first : body.Follows home)
    (rest : after.Follows home) : (Run.ensuring body after).Follows home := fun making w ready => by
  have course := first making w ready
  rw [ensuring_apply]
  exact course.trans (rest making _ (course.ready ready))

theorem forIn (items : List α) {f : α → Unit → Run (Ledger σ) (ForInStep Unit)}
    (each : ∀ a, (f a ()).Follows home) : (ForIn.forIn items () f).Follows home := by
  induction items with
  | nil => exact .pure _
  | cons a rest ih =>
    rw [List.forIn_cons]
    refine .bind (each a) fun step => ?_
    cases step with
    | done => exact .pure _
    | yield => exact ih

end Run.Follows

def Host.answer {τ : Type} (h : Host τ) : (call : Call) → Run τ call.Answer
  | .enterClass k c => h.enterClass k c
  | .createObject k c ofClass args => h.createObject k c ofClass args
  | .destroyObject k c o => h.destroyObject k c o
  | .callFunction k c args => h.callFunction k c args
  | .runModule k c table => h.runModule k c table
  | .handleError k c m => h.handleError k c m
  | .handleException k c f => h.handleException k c f
  | .reportError k c m => h.reportError k c m
  | .reportFatal k c e => h.reportFatal k c e
  | .autoload k c name => h.autoload k c name
  | .filterOutput k c chunk mode => h.filterOutput k c chunk mode
  | .settingChanged k c value => h.settingChanged k c value
  | .loadExtension k c => h.loadExtension k c
  | .shutDown k c => h.shutDown k c
  | .runShell k c command => h.runShell k c command
  | .exit c status => h.exit c status
  | .compile k c source => h.compile k c source
  | .dump k m => h.dump k m
  | .undump k c source payload => h.undump k c source payload
  | .fetchCached k name digest => h.fetchCached k name digest
  | .saveCached k name digest payload => h.saveCached k name digest payload

theorem Host.answer_ofCalls {τ : Type} (patience : Nat) (answer : (call : Call) → Run τ call.Answer)
    (call : Call) : (Host.ofCalls patience answer).answer call = answer call := by
  cases call <;> rfl

def Call.Follows (call : Call) (body : Run (Ledger σ) call.Answer) : Prop :=
  ∀ (making : List ContextId) (home : Option ContextId) (w : Recorded σ), w.Ready making home →
    Course making (w.note (.called call)) (body (w.note (.called call))).2

def Host.Follows (h : Host (Ledger σ)) : Prop :=
  ∀ call, ∃ body : Run (Ledger σ) call.Answer, call.Follows body ∧ h.answer call = call.recorded body

theorem Call.recorded_snd (call : Call) (body : Run (Ledger σ) call.Answer) (w : Recorded σ) :
    (call.recorded body w).2 =
      (body (w.note (.called call))).2.note (.answered call (body (w.note (.called call))).1) := rfl

theorem World.IsDue.of_unwanted {τ : Type} {w : World τ} {event : Event}
    (unwanted : event.wanted? = none) : w.IsDue event :=
  fun _ _ wanted => nomatch unwanted.symm.trans wanted

theorem World.IsDue.of_wanted {τ : Type} {w : World τ} {event : Event} {c : ContextId} {name : Bytes}
    (wanted : event.wanted? = some (c, name)) (first : (w.busy c).head? = some name.lower) :
    w.IsDue event := by
  intro d n same
  cases wanted.symm.trans same
  exact first

theorem Course.note {w : Recorded σ} (event : Event) (isPlain : event.isPlain)
    (unwanted : event.wanted? = none) : Course making w (w.note event) :=
  .change (.note w event isPlain (.of_unwanted unwanted))

theorem World.Ready.note {w : Recorded σ} (ready : w.Ready making home) (event : Event) :
    (w.note event).Ready making home :=
  ⟨ready.sound.note event, ready.known, ready.present, ready.acts⟩

theorem World.Ready.pushFrame {w : Recorded σ} (ready : w.Ready making home) (c : ContextId)
    {f : Frame} (known : f.IsKnown w) : (w.pushFrame c f).Ready making home :=
  ready.later (ready.sound.pushFrame c known) (w.extends_pushFrame c f) rfl

def Call.isPlain : Call → Bool
  | .enterClass .. | .destroyObject .. | .callFunction .. | .autoload .. | .compile .. | .undump .. =>
    false
  | _ => true

theorem Host.Follows.answered {h : Host (Ledger σ)} (follows : h.Follows) (call : Call)
    (plain : (Event.called call).isPlain) {w : Recorded σ} (due : w.IsDue (.called call))
    (ready : w.Ready making home) :
    ∃ outcome v, h.answer call w = (outcome, v.note (.answered call outcome)) ∧
      Course making w v := by
  obtain ⟨body, inner, same⟩ := follows call
  have course := inner making home w ready
  exact ⟨_, _, by rw [same]; rfl, (Course.change (.note w _ plain due)).trans course⟩

theorem Host.Follows.answer {h : Host (Ledger σ)} (follows : h.Follows) (call : Call)
    (isPlain : call.isPlain) : (h.answer call).Follows home := by
  intro making w ready
  have called : (Event.called call).isPlain := by cases call <;> first | rfl | cases isPlain
  have unwanted : call.wanted? = none := by cases call <;> first | rfl | cases isPlain
  obtain ⟨outcome, v, same, course⟩ := follows.answered call called (.of_unwanted unwanted) ready
  have ended : (Event.answered call outcome).isPlain := by
    cases call <;> first | rfl | cases isPlain
  rw [same]
  exact course.trans (.note _ ended unwanted)

end ScriptHost
