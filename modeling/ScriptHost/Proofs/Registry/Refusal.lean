import ScriptHost.Proofs.Embedder.Directness
import ScriptHost.Proofs.Embedder.Loading
import ScriptHost.Proofs.Output.Closure

set_option autoImplicit false

namespace ScriptHost

open Run

variable {σ α β : Type} {c : ContextId}

def Event.isSetback : Event → Bool
  | .answered (.enterClass ..) (.ok none) => false
  | .answered (.enterClass ..) _ => true
  | _ => false

@[simp] theorem Event.isSetback_called (call : Call) : (called call).isSetback = false := rfl

theorem Event.isSetback_of_plain {call : Call} (plain : call.isPlain)
    (outcome : Except Signal call.Answer) : (answered call outcome).isSetback = false := by
  cases call <;> first | rfl | cases plain

structure Moment.Starts (m : Moment σ) (hook : Callback) (c : ContextId) (k : ClassId) : Prop where
  event : m.event = .called (.enterClass hook c)
  own : (m.world.classes.get k).onEnter = some hook
  stands : m.world.Resolves c (.ofClass (m.world.classes.get k).lowerName k)

structure World.LeavesOut {τ : Type} (w : World τ) (c : ContextId) (k : ClassId) (name : Bytes) :
    Prop where
  nowhere : ∀ key, (w.context c).classes.get? key ≠ some k
  absent : (w.context c).classes.get? name.lower = none
  unloaded : name.head? ≠ some 0x5c → (ClassRegistry.isLoaded c name w).1 = .ok false

def Class.refusal (e : Class) (f : Failure) (frames : List Frame) : Signal :=
  .failure (.fatal ⟨.coreError, "Cannot initialize class " ++ e.name ++ ": " ++ f.message, e.trace,
    frames⟩)

/-- How a computation ends with respect to the hooks that it calls: all of them have ended well, or
the last one has not, and the computation fails with it. Only a failure that is returned takes the
class out again. -/
inductive World.Meets (c : ContextId) (w : Recorded σ) : Except Signal α → Recorded σ → Prop
  | smooth {outcome : Except Signal α} {w' : Recorded σ}
      (fine : ∀ m ∈ w.direct w', m.event.isSetback = false) : w.Meets c outcome w'
  | refused {w' : Recorded σ} (early : List (Moment σ)) (first last : Moment σ) (hook : Callback)
      (k : ClassId) (f : Failure) (direct : w.direct w' = early ++ [first, last])
      (fine : ∀ m ∈ early, m.event.isSetback = false) (starts : first.Starts hook c k)
      (ends : last.event = .answered (.enterClass hook c) (.ok (some f)))
      (out : w'.LeavesOut c k (first.world.classes.get k).name) :
      w.Meets c (.error ((first.world.classes.get k).refusal f (w'.context c).snapshot)) w'
  | unwound {w' : Recorded σ} (early : List (Moment σ)) (first last : Moment σ) (hook : Callback)
      (k : ClassId) (signal : Signal) (direct : w.direct w' = early ++ [first, last])
      (fine : ∀ m ∈ early, m.event.isSetback = false) (starts : first.Starts hook c k)
      (ends : last.event = .answered (.enterClass hook c) (.error signal))
      (stays : (first.world.classes.get k).lowerName.head? ≠ some 0x5c →
        w'.Resolves c (.ofClass (first.world.classes.get k).lowerName k)) :
      w.Meets c (.error signal) w'

theorem World.LeavesOut.of_absent {τ : Type} {w : World τ} {k : ClassId} {name : Bytes}
    (nowhere : ∀ key, (w.context c).classes.get? key ≠ some k)
    (absent : (w.context c).classes.get? name.lower = none) : w.LeavesOut c k name where
  nowhere := nowhere
  absent := absent
  unloaded plain := by
    have unknown : (w.context c).classes.contains (withoutSeparator name).lower = false := by
      rw [withoutSeparator_of_plain plain, Table.contains, absent]
      rfl
    exact congrArg Except.ok unknown

theorem World.leavesOut_leaveHook {w : Recorded σ} (sound : w.Sound) (there : w.contexts.has c)
    {k : ClassId} {name : Bytes} (named : (w.classes.get k).name = name) (hook : Callback)
    (f : Failure) : (w.leaveHook c name.lower hook (.ok (some f))).LeavesOut c k name := by
  have erased : ((w.leaveHook c name.lower hook (.ok (some f))).context c).classes =
      (w.context c).classes.erase name.lower := by
    unfold World.leaveHook
    rw [World.context_updateContext, if_pos ⟨rfl, there⟩]
    rfl
  refine .of_absent (fun key found => ?_) ?_ <;> rw [erased, Table.get?_erase] at *
  · split at found
    next => cases found
    next apart =>
      -- a class stands under no name but its own
      have own : (w.classes.get k).lowerName = key :=
        ((sound.contexts c).declarations.classes key k found).2
      exact apart (own.symm.trans (congrArg Bytes.lower named))
  · exact if_pos rfl

namespace World.Meets

variable {u v w : Recorded σ}

theorem of_direct {outcome : Except Signal α} {moments : List (Moment σ)}
    (direct : v.direct w = moments) (fine : ∀ m ∈ moments, m.event.isSetback = false) :
    v.Meets c outcome w := .smooth fun m member => fine m (direct ▸ member)

theorem after {outcome : Except Signal α} (meets : v.Meets c outcome w)
    (fine : ∀ m ∈ u.direct v, m.event.isSetback = false)
    (whole : u.direct w = u.direct v ++ v.direct w) : u.Meets c outcome w := by
  have fine_append {moments : List (Moment σ)} (rest : ∀ m ∈ moments, m.event.isSetback = false) :
      ∀ m ∈ u.direct v ++ moments, m.event.isSetback = false :=
    List.forall_mem_append.2 ⟨fine, rest⟩
  have joined {early last : List (Moment σ)} (direct : v.direct w = early ++ last) :
      u.direct w = u.direct v ++ early ++ last := by rw [whole, direct, List.append_assoc]
  cases meets with
  | smooth rest => exact .of_direct whole (fine_append rest)
  | refused early first last hook k f direct rest starts ends out =>
    exact .refused _ first last hook k f (joined direct) (fine_append rest) starts ends out
  | unwound early first last hook k signal direct rest starts ends stays =>
    exact .unwound _ first last hook k signal (joined direct) (fine_append rest) starts ends stays

theorem fine_of_ok {a : α} (meets : v.Meets c (.ok a) w) :
    ∀ m ∈ v.direct w, m.event.isSetback = false := by
  cases meets with
  | smooth fine => exact fine

theorem of_error {signal : Signal} (meets : v.Meets c (.error signal : Except Signal α) w) :
    v.Meets c (.error signal : Except Signal β) w := by
  cases meets with
  | smooth fine => exact .smooth fine
  | refused early first last hook k f direct fine starts ends out =>
    exact .refused early first last hook k f direct fine starts ends out
  | unwound early first last hook k signal direct fine starts ends stays =>
    exact .unwound early first last hook k signal direct fine starts ends stays

theorem update {outcome : Except Signal α} (meets : v.Meets c outcome w) (f : Context → Context)
    (classes : ∀ x, (f x).classes = x.classes) (calls : ∀ x, (f x).calls = x.calls) :
    v.Meets c outcome (w.updateContext c f) := by
  have same : v.direct (w.updateContext c f) = v.direct w := World.direct_congr rfl rfl
  have classes' := w.contexts.modify_keeps c c f Context.classes classes
  have frames := w.contexts.modify_keeps c c f Context.snapshot fun x => by
    rw [Context.snapshot, calls]
    rfl
  cases meets with
  | smooth fine => exact .smooth fun m member => fine m (same ▸ member)
  | refused early first last hook k g direct fine starts ends out =>
    have out' : (w.updateContext c f).LeavesOut c k (first.world.classes.get k).name :=
      .of_absent (fun key => classes' ▸ out.nowhere key) (classes' ▸ out.absent)
    have kept : v.Meets c (.error ((first.world.classes.get k).refusal g
        ((w.updateContext c f).context c).snapshot) : Except Signal α) (w.updateContext c f) :=
      .refused early first last hook k g (same.trans direct) fine starts ends out'
    rwa [show ((w.updateContext c f).context c).snapshot = (w.context c).snapshot from frames] at kept
  | unwound early first last hook k signal direct fine starts ends stays =>
    refine .unwound early first last hook k signal (same.trans direct) fine starts ends fun plain => ?_
    exact (congrArg (Table.get? · _) classes').trans (stays plain)

end World.Meets

structure Run.Heeds (c : ContextId) (m : Run (Ledger σ) α) (w : Recorded σ) : Prop where
  course : Course [c] w (m w).2
  bodiless : ∀ e ∈ w.direct (m w).2, e.isBody = false
  meets : w.Meets c (m w).1 (m w).2

def Run.IsHeedful (c : ContextId) (m : Run (Ledger σ) α) : Prop :=
  ∀ w : Recorded σ, w.Ready [c] (some c) → m.Heeds c w

namespace Run.Heeds

variable {w : Recorded σ}

theorem of_silent {m : Run (Ledger σ) α} (course : Course [c] w (m w).2)
    (silent : (m w).2.embedder.journal = w.embedder.journal) : m.Heeds c w where
  course := course
  bodiless := by simp [World.direct_of_same silent]
  meets := .of_direct (World.direct_of_same silent) (List.forall_mem_nil _)

theorem lacksBody {m : Run (Ledger σ) α} (heeds : m.Heeds c w) (ready : w.Ready [c] (some c)) :
    m.LacksBody c w := .of_course ready heeds.course heeds.bodiless

theorem pure (a : α) : (Pure.pure a : Run (Ledger σ) α).Heeds c w := .of_silent (.still w) rfl

theorem congr {m m' : Run (Ledger σ) α} (same : m w = m' w) (heeds : m'.Heeds c w) : m.Heeds c w := by
  obtain ⟨course, bodiless, meets⟩ := heeds
  rw [← same] at course bodiless meets
  exact ⟨course, bodiless, meets⟩

theorem bind {m : Run (Ledger σ) α} {f : α → Run (Ledger σ) β} (ready : w.Ready [c] (some c))
    (first : m.Heeds c w)
    (rest : ∀ a v, m w = (.ok a, v) → v.Ready [c] (some c) → (f a).Heeds c v) :
    (m >>= f).Heeds c w := by
  have lacks := (first.lacksBody ready).bind fun a v result later =>
    (rest a v result later).lacksBody later
  obtain ⟨course, -, meets⟩ := first
  rcases result : m w with ⟨signal | a, v⟩ <;> rw [result] at course meets
  · have whole : (m >>= f) w = (.error signal, v) := by rw [bind_apply, result]
    refine ⟨?_, lacks.bodiless, ?_⟩ <;> rw [whole]
    · exact course
    · exact meets.of_error
  -- the first part has returned, so none of its hooks has failed
  · obtain ⟨course', -, meets'⟩ := rest a v result (course.ready ready)
    refine ⟨?_, lacks.bodiless, ?_⟩ <;> rw [bind_ok result]
    · exact course.trans course'
    · exact meets'.after meets.fine_of_ok (course.direct_trans course')

theorem answer {h : Host (Ledger σ)} (nests : h.Nests) (ready : w.Ready [c] (some c)) (call : Call)
    (plain : call.isPlain) (other : call.isBody = false) : (h.answer call).Heeds c w := by
  have course := nests.follows.answer call plain [c] w ready
  obtain ⟨outcome, v, answered, -, direct⟩ := nests.answered call ready
  refine ⟨course, (Run.LacksBody.answer nests ready other).bodiless, ?_⟩
  rw [answered]
  exact .of_direct direct (by simp [Event.isSetback_of_plain plain])

theorem answer_due {h : Host (Ledger σ)} (nests : h.Nests) (ready : w.Ready [c] (some c))
    (call : Call) {name : Bytes} (wanted : call.wanted? = some (c, name))
    (first : (w.busy c).head? = some name.lower) : (h.answer call).Heeds c w := by
  have course := nests.follows.answer_due call wanted first ready
  obtain ⟨outcome, v, answered, -, direct⟩ := nests.answered call ready
  have other : call.isBody = false := by cases call <;> first | rfl | cases wanted
  have fine : (Event.answered call outcome).isSetback = false := by
    cases call <;> first | rfl | cases wanted
  refine ⟨course, (Run.LacksBody.answer nests ready other).bodiless, ?_⟩
  rw [answered]
  exact .of_direct direct (by simp [fine])

end Run.Heeds

namespace Run.IsHeedful

theorem of_silent {m : Run (Ledger σ) α} (follows : m.Follows (some c))
    (silent : ∀ w, (m w).2.embedder.journal = w.embedder.journal) : IsHeedful c m :=
  fun w ready => .of_silent (follows [c] w ready) (silent w)

theorem pure (a : α) : IsHeedful c (Pure.pure a : Run (Ledger σ) α) := fun _ _ => .pure a

theorem bind {m : Run (Ledger σ) α} {f : α → Run (Ledger σ) β} (first : IsHeedful c m)
    (rest : ∀ a, IsHeedful c (f a)) : IsHeedful c (m >>= f) := fun w ready =>
  .bind ready (first w ready) fun a v _ later => rest a v later

theorem context : IsHeedful c (Run.context c : Run (Ledger σ) Context) :=
  .of_silent (context_follows c) fun _ => rfl

theorem answer {h : Host (Ledger σ)} (nests : h.Nests) (call : Call) (plain : call.isPlain)
    (other : call.isBody = false) : IsHeedful c (h.answer call) :=
  fun _ ready => .answer nests ready call plain other

end Run.IsHeedful

theorem Run.isClosed_heedful (c : ContextId) :
    Run.IsClosed c fun α (m : Run (Ledger σ) α) => m.IsHeedful c where
  pure a := .pure a
  bind first rest := .bind first rest
  context := .context
  modifyStack _ becomes w ready :=
    .of_silent (.change (.adjust w c _ (fun x => ⟨rfl, rfl, rfl, becomes x.output, .same, List.prefix_rfl⟩)
      (ready.acts c rfl))) rfl
  onSink f := .of_silent (Output.onSink_follows c f) fun _ => rfl

namespace Diagnostics

theorem frameAt_heedful (trace : Trace) : (frameAt c trace : Run (Ledger σ) Frame).IsHeedful c := by
  refine .bind .context fun x => ?_
  split <;> exact .pure _

variable {h : Host (Ledger σ)} (nests : h.Nests)
include nests

theorem reportError_heedful (m : Message) : (reportError h c m).IsHeedful c := by
  have echoed := Output.echoBytes_closed (Run.isClosed_heedful c) fun k chunk mode =>
    .answer nests (.filterOutput k c chunk mode) rfl rfl
  refine .bind .context fun x => ?_
  split
  next k _ => exact .answer nests (.reportError k c m) rfl rfl
  next => exact .bind (echoed _) fun _ => echoed _

theorem trigger_heedful (m : Message) : (trigger h c m).IsHeedful c := by
  have reported (handled : Bool) :
      (do if !handled && (← Run.context c).diagnostics.mask.enables m.severity then
        reportError h c m : Run (Ledger σ) Unit).IsHeedful c := by
    refine .bind .context fun x => ?_
    split
    next => exact reportError_heedful nests m
    next => exact .pure _
  refine .bind (.of_silent (modifyDiagnostics_follows c _) fun _ => rfl) fun _ => ?_
  refine .bind .context fun x => ?_
  dsimp only
  split
  next handler _ => exact .bind (.answer nests (.handleError _ c m) rfl rfl) reported
  next => exact .bind (.pure _) reported

theorem raiseText_heedful (severity : Severity) (trace : Trace) (text : Bytes) :
    (raiseText h c severity trace text).IsHeedful c := by
  refine .bind (frameAt_heedful trace) fun frame => .bind .context fun x => ?_
  dsimp only
  split
  next => exact .of_silent (abort_follows c _) fun _ => rfl
  next => exact trigger_heedful nests _

end Diagnostics

namespace ClassRegistry

theorem concludeEnter_embedder {τ : Type} (h : Host τ) (c : ContextId) (e : Class)
    (outcome : Except Signal (Option Failure)) (w : World τ) :
    (concludeEnter h c e outcome w).2.embedder = w.embedder := by
  rcases outcome with signal | _ | f
  · rfl
  · rfl
  · rw [concludeEnter, Diagnostics.raiseText_fatal h c (by decide) (by decide)]
    rfl

variable {h : Host (Ledger σ)} (nests : h.Nests) {w : Recorded σ}
include nests

theorem enter_calls (ready : w.Ready [c] (some c)) {k : ClassId} (known : w.classes.has k)
    {hook : Callback} (own : (w.classes.get k).onEnter = some hook) :
    ∃ outcome v, Course [] ((w.insertClass c k).note (.called (.enterClass hook c))) v ∧
      w.direct (v.leaveHook c (w.classes.get k).lowerName hook outcome) =
        [⟨.called (.enterClass hook c), w.embedder.running, (w.insertClass c k).unrecorded⟩,
          ⟨.answered (.enterClass hook c) outcome, w.embedder.running, v.unrecorded⟩] ∧
      enter h c k w = concludeEnter h c (w.classes.get k) outcome
        (v.leaveHook c (w.classes.get k).lowerName hook outcome) := by
  obtain ⟨outcome, v, answered, inner, direct⟩ :=
    nests.answered (.enterClass hook c) (ready.sound.insertClass c k known).ready
  have same := v.journal_leaveHook c (w.classes.get k).lowerName hook outcome
  exact ⟨outcome, v, inner, (World.direct_congr (u := w.insertClass c k) rfl same).trans direct,
    enter_answered own answered⟩

theorem enter_heeds (ready : w.Ready [c] (some c)) {k : ClassId} (known : w.classes.has k)
    (entrance : w.Entrance [c] c k) : (enter h c k).Heeds c w := by
  have course := enter_course nests.follows ready known entrance
  cases own : (w.classes.get k).onEnter with
  | none =>
    have journal := congrArg (·.2.embedder.journal) (enter_hookless h c w own)
    exact .of_silent course journal
  | some hook =>
    obtain ⟨outcome, v, inner, direct, entered⟩ := enter_calls nests ready known own
    have ended := concludeEnter_embedder h c (w.classes.get k) outcome
      (v.leaveHook c (w.classes.get k).lowerName hook outcome)
    refine ⟨course, fun e member => ?_, ?_⟩
    · rw [entered, World.direct_congr (u := w) rfl (congrArg Ledger.journal ended), direct] at member
      rw [Moment.isBody, Event.call?_of_pair member]
      rfl
    have resolves := World.insertClass_resolves (ready.present c rfl) k
    have starts : Moment.Starts
        ⟨.called (.enterClass hook c), w.embedder.running, (w.insertClass c k).unrecorded⟩ hook c k :=
      ⟨rfl, own, resolves⟩
    have inserted := (ready.sound.insertClass c k known).note (.called (.enterClass hook c))
    rw [entered]
    rcases outcome with signal | _ | f
    -- nothing takes the class out again when the hook unwinds
    · have present := ((w.extends_insertClass c k).contexts c (ready.present c rfl)).1
      exact .unwound [] _ _ hook k signal direct (List.forall_mem_nil _) starts rfl fun plain =>
        inner.keeps inserted present List.not_mem_nil (r := .ofClass _ k) plain resolves
    · exact .of_direct direct (by simp [Event.isSetback])
    · have sound := inner.sound inserted
      have later := (w.extends_insertClass c k).trans
        ((World.extends_note _ (.called (.enterClass hook c))).trans inner.extends)
      have there := (later.contexts c (ready.present c rfl)).1
      have out : (v.leaveHook c (w.classes.get k).lowerName hook (.ok (some f))).LeavesOut c k
          (w.classes.get k).name :=
        World.leavesOut_leaveHook sound there (later.classes k known).2.1 hook f
      rw [concludeEnter, Diagnostics.raiseText_fatal h c (by decide) (by decide)]
      -- the error is on record as the last one, which is no matter
      exact World.Meets.update
        (.refused [] _ _ hook k f direct (List.forall_mem_nil _) starts rfl out) _ (fun _ => rfl)
        fun _ => rfl

theorem find_heedful (name : Bytes) : (find h c name).IsHeedful c := by
  intro w ready
  have course := find_follows nests.follows c name [c] w ready
  unfold find at course ⊢
  obtain ⟨k, _, same⟩ | ⟨_, same⟩ | ⟨k, absent, shared, isStatic, same⟩ :=
    findLower_cases h c w (withoutSeparator name).lower
  · exact .of_silent course (by rw [same])
  · exact .of_silent course (by rw [same])
  · have known := ((ready.sound.scopes _).classes _ k shared).1
    have entered := enter_heeds nests ready known (.fetched _ absent shared isStatic)
    exact .congr same (.bind ready entered fun _ _ _ _ => .pure _)

theorem load_heeds (ready : w.Ready [c] (some c)) (a : Autoloader) {name : Bytes}
    (first : (w.busy c).head? = some name.lower) : (load h c a name).Heeds c w := by
  obtain ⟨-, same⟩ | ⟨k, -, same⟩ | ⟨k, -, same⟩ := load_cases h c w a name
  · exact .of_silent (by rw [same]; exact .still w) (by rw [same])
  · exact .congr same (.answer_due nests ready (.autoload k c name) rfl first)
  · exact .congr same (.answer_due nests ready (.callFunction k c [.text name]) rfl first)

theorem tryLoaders_heeds (ready : w.Ready [c] (some c)) {name : Bytes}
    (first : (w.busy c).head? = some name.lower) (loaders : List Autoloader) :
    (tryLoaders h c name loaders).Heeds c w := by
  induction loaders generalizing w with
  | nil =>
    refine .congr (bind_ok (context_apply w c)) ?_
    cases (w.context c).autoload.fallback with
    | none => exact .pure _
    | some a =>
      exact .bind ready (load_heeds nests ready a first) fun _ v _ later =>
        find_heedful nests name v later
  | cons a rest ih =>
    have loads := load_heeds nests ready a first
    refine .bind ready loads fun _ v loaded later => ?_
    refine .bind later (find_heedful nests name v later) fun found u tried ended => ?_
    cases found with
    | some => exact .pure _
    | none =>
      have course := loads.course
      rw [loaded] at course
      have searched := (find_follows nests.follows c name).course later tried
      exact ih ended (by rwa [searched.busy, course.busy])

theorem autoload_heedful (name : Bytes) : (autoload h c name).IsHeedful c := by
  intro w ready
  have course := autoload_follows nests.follows c name [c] w ready
  by_cases able : isLoadable name ∧ name.lower ∉ w.busy c
  next =>
    obtain ⟨outcome, v, tried, same⟩ := autoload_able h c w able.1 able.2
    obtain ⟨entered, first⟩ := ready_enter ready name
    obtain ⟨inner, bodiless, meets⟩ :=
      tryLoaders_heeds nests entered first (w.context c).autoload.loaders
    rw [tried] at inner bodiless meets
    -- what is being loaded makes no difference to what is called
    have before : w.direct (w.updateLoaders c (·.enter name.lower)) = [] := World.direct_of_same rfl
    refine ⟨course, ?_, ?_⟩ <;> rw [same]
    · exact bodiless
    · have whole := meets.after (u := w) (by simp [before])
        (World.direct_trans List.prefix_rfl inner.journal rfl)
      exact whole.update _ (fun _ => rfl) fun _ => rfl
  next =>
    refine .of_silent course ?_
    rw [autoload_unable h c w able]

theorem fetch_heedful (name : Bytes) : (fetch h c name).IsHeedful c := by
  refine .bind (find_heedful nests name) fun found => ?_
  split
  next => exact .pure _
  next => exact autoload_heedful nests _

theorem declare_heeds (ready : w.Ready [c] (some c)) {k : ClassId} (known : w.classes.has k) :
    (declare h c k).Heeds c w := by
  rcases found : find h c (w.classes.get k).name w with ⟨signal | _ | current, v⟩
  · refine .bind ready (.of_silent (.still w) rfl) fun e _ read _ => ?_
    cases read
    refine .bind ready (find_heedful nests _ w ready) fun result _ ended _ => ?_
    exact nomatch ended.symm.trans found
  · obtain ⟨rfl, -⟩ := find_none h c w found
    rcases declare_absent known found with taken | ⟨u, course, silent, entrance, entered⟩
    · exact .congr taken (.pure false)
    -- between the search and the entering nothing is called
    · have later := course.ready ready
      have heeds := enter_heeds nests later (course.extends.classes k known).1 entrance
      obtain ⟨course', bodiless, meets⟩ := heeds.bind later fun _ _ _ _ => .pure true
      have silent : v.direct u = [] := World.direct_of_same (congrArg Ledger.journal silent)
      have split := course.direct_trans course'
      refine ⟨?_, ?_, ?_⟩ <;> rw [entered]
      · exact course.trans course'
      · rwa [split, silent]
      · exact meets.after (by simp [silent]) split
  · refine .bind ready (.of_silent (.still w) rfl) fun e _ read _ => ?_
    cases read
    refine .bind ready (find_heedful nests _ w ready) fun result _ ended _ => ?_
    cases ended.symm.trans found
    exact .pure _

theorem register_heeds (ready : w.Ready [c] (some c)) {k : ClassId} (known : w.classes.has k) :
    (register h c k).Heeds c w := by
  refine .bind ready (declare_heeds nests ready known) fun declared v _ later => ?_
  split
  next =>
    refine Run.IsHeedful.bind (.of_silent (classOf_follows k) fun _ => rfl) (fun e => ?_) v later
    exact Diagnostics.raiseText_heedful nests .error e.trace _
  next => exact .pure _

theorem enter_starts (ready : w.Ready [c] (some c)) {k : ClassId} (known : w.classes.has k)
    {hook : Callback} (own : (w.classes.get k).onEnter = some hook) :
    ∃ first last, w.direct (enter h c k w).2 = [first, last] ∧ first.Starts hook c k := by
  obtain ⟨outcome, v, -, direct, entered⟩ := enter_calls nests ready known own
  have ended := concludeEnter_embedder h c (w.classes.get k) outcome
    (v.leaveHook c (w.classes.get k).lowerName hook outcome)
  have same := World.direct_congr (u := w) rfl (congrArg Ledger.journal ended)
  rw [entered]
  exact ⟨_, _, same.trans direct, rfl, own, World.insertClass_resolves (ready.present c rfl) k⟩

end ClassRegistry

def Run.IsSilent {τ : Type} (m : Run τ α) : Prop := ∀ w, (m w).2.embedder = w.embedder

theorem Run.IsSilent.bind {τ : Type} {m : Run τ α} {f : α → Run τ β} (first : m.IsSilent)
    (rest : ∀ a, (f a).IsSilent) : (m >>= f).IsSilent := by
  intro w
  have before := first w
  rw [bind_apply]
  rcases result : m w with ⟨signal | a, v⟩ <;> rw [result] at before
  · exact before
  · exact (rest a v).trans before

theorem FunctionRegistry.declare_silent {τ : Type} (f : FunctionId) :
    (declare c f : Run τ Bool).IsSilent := by
  have fetched (name : Bytes) : (fetch c name : Run τ (Option FunctionId)).IsSilent := by
    intro w
    obtain ⟨_, _, same⟩ | ⟨_, same⟩ | ⟨_, _, _, same⟩ := fetch_cases c name w <;> rw [same]
    rfl
  have inserted (key : Bytes) : (do
      Run.modifyContext c fun x => { x with functions := x.functions.insert key f }
      return true : Run τ Bool).IsSilent := fun _ => rfl
  refine .bind (fun _ => rfl) fun e => .bind (fetched e.name) fun found => ?_
  split
  next => exact fun _ => rfl
  split
  next =>
    refine .bind (fun _ => rfl) fun s => .bind (fun _ => rfl) fun x => ?_
    dsimp only
    split
    next => exact fun _ => rfl
    next => exact .bind (fun _ => rfl) fun _ => inserted _
  next => exact inserted _

theorem ConstantRegistry.declare_silent {τ : Type} (k : ConstantId) :
    (declare c k : Run τ Bool).IsSilent := by
  have found (name : Bytes) : (find c name : Run τ (Option ConstantId)).IsSilent := by
    intro w
    obtain ⟨_, _, same⟩ | ⟨_, _, same⟩ | ⟨_, _, _, same⟩ := find_cases c name w <;> rw [same]
    rfl
  refine .bind (fun _ => rfl) fun e => .bind (found e.name) fun found => ?_
  split
  next => exact fun _ => rfl
  refine .bind (fun _ => rfl) fun s => .bind (fun _ => rfl) fun x => ?_
  dsimp only
  split
  next => exact fun _ => rfl
  next => exact fun _ => rfl

namespace Modules

variable {h : Host (Ledger σ)} (nests : h.Nests) {w : Recorded σ}
include nests

theorem warning_heeds (trace : Trace) (text : Bytes) {rest : Run (Ledger σ) Unit}
    (ready : w.Ready [c] (some c)) (next : ∀ v, Course [c] w v → rest.Heeds c v) :
    (do
      Diagnostics.warning h c trace text
      rest).Heeds c w := by
  have warned := Diagnostics.raiseText_heedful nests .warning trace text w ready
  refine .bind ready warned fun _ v raised _ => next v ?_
  have course := warned.course
  rwa [show Diagnostics.raiseText h c _ _ _ w = _ from raised] at course

theorem declareClasses_heeds (ready : w.Ready [c] (some c)) {classes : List ClassId}
    (known : ∀ k ∈ classes, w.classes.has k) : (declareClasses h c classes).Heeds c w := by
  induction classes generalizing w with
  | nil => exact .pure ()
  | cons k rest ih =>
    obtain ⟨here, others⟩ := List.forall_mem_cons.1 known
    have next {v : Recorded σ} (course : Course [c] w v) : (declareClasses h c rest).Heeds c v :=
      ih (course.ready ready) fun k' member => (course.extends.classes k' (others k' member)).1
    refine .bind ready (.of_silent (.still w) rfl) fun e _ read _ => ?_
    cases read
    dsimp only
    split
    next =>
      have declared := ClassRegistry.declare_heeds nests ready here
      refine .bind ready declared fun isDeclared v result later => ?_
      have course := declared.course
      rw [result] at course
      split
      next =>
        refine .bind later (.of_silent (.still v) rfl) fun e _ read _ => ?_
        cases read
        exact warning_heeds nests _ _ later fun u warned => next (course.trans warned)
      next => exact next course
    next => exact next (.still w)

theorem declareFunctions_heeds (ready : w.Ready [c] (some c)) {functions : List FunctionId}
    (known : ∀ f ∈ functions, w.functions.has f) : (declareFunctions h c functions).Heeds c w := by
  induction functions generalizing w with
  | nil => exact .pure ()
  | cons f rest ih =>
    obtain ⟨here, others⟩ := List.forall_mem_cons.1 known
    have next {v : Recorded σ} (course : Course [c] w v) : (declareFunctions h c rest).Heeds c v :=
      ih (course.ready ready) fun f' member => (course.extends.functions f' (others f' member)).1
    refine .bind ready (.of_silent (.still w) rfl) fun e _ read _ => ?_
    cases read
    dsimp only
    split
    next =>
      have course := FunctionRegistry.declare_course ready here
      have silent := congrArg Ledger.journal (FunctionRegistry.declare_silent f w (c := c))
      refine .bind ready (.of_silent course silent) fun isDeclared v result later => ?_
      rw [result] at course
      split
      next => exact warning_heeds nests _ _ later fun u warned => next (course.trans warned)
      next => exact next course
    next => exact next (.still w)

theorem declareConstants_heeds (ready : w.Ready [c] (some c)) {constants : List ConstantId}
    (known : ∀ k ∈ constants, w.constants.has k) : (declareConstants h c constants).Heeds c w := by
  induction constants generalizing w with
  | nil => exact .pure ()
  | cons k rest ih =>
    obtain ⟨here, others⟩ := List.forall_mem_cons.1 known
    have next {v : Recorded σ} (course : Course [c] w v) : (declareConstants h c rest).Heeds c v :=
      ih (course.ready ready) fun k' member => (course.extends.constants k' (others k' member)).1
    have course := ConstantRegistry.declare_course ready here
    have silent := congrArg Ledger.journal (ConstantRegistry.declare_silent k w (c := c))
    refine .bind ready (.of_silent course silent) fun isDeclared v result later => ?_
    rw [result] at course
    split
    next =>
      refine .bind later (.of_silent (.still v) rfl) fun e _ read _ => ?_
      cases read
      exact warning_heeds nests _ _ later fun u warned => next (course.trans warned)
    next => exact next course

theorem register_heeds (ready : w.Ready [c] (some c)) {m : ModuleId} (may : w.MayRecord c m) :
    (register h c m).Heeds c w := by
  obtain ⟨classes, functions, constants⟩ := (Module.isGrounded_iff _ w).1 (ready.sound.modules m)
  have declared : (declareAll h c m).Heeds c w := by
    refine .bind ready (.of_silent (.still w) rfl) fun e _ read _ => ?_
    cases read
    have first := declareClasses_heeds nests ready classes
    refine .bind ready first fun _ v result later => ?_
    have course := first.course
    rw [result] at course
    have second := declareFunctions_heeds nests later fun f member =>
      (course.extends.functions f (functions f member)).1
    refine .bind later second fun _ u result' later' => ?_
    have course' := second.course
    rw [result'] at course'
    exact declareConstants_heeds nests later' fun k member =>
      ((course.trans course').extends.constants k (constants k member)).1
  have course := register_course nests.follows ready may
  obtain ⟨-, bodiless, meets⟩ := declared
  rcases result : declareAll h c m w with ⟨signal | _, v⟩ <;> rw [result] at bodiless meets
  · refine ⟨course, ?_, ?_⟩ <;> rw [register, bind_apply, result]
    · exact bodiless
    · exact meets
  · refine ⟨course, ?_, ?_⟩ <;> rw [register, bind_apply, result]
    · exact bodiless
    · exact meets.update _ (fun _ => rfl) fun _ => rfl

end Modules

def Action.loadsClasses : Action → Bool
  | findClass .. | fetchClass .. | registerClass .. | registerModule .. => true
  | _ => false

theorem Operation.request_meets {h : Host (Ledger σ)} (nests : h.Nests) {w w' : Recorded σ}
    (sound : w.Sound) {a : Action} (loads : a.loadsClasses) {outcome : Except Signal a.Result}
    (asked : (act c a).request h (w.begin (.act c a)) = (outcome, w')) :
    (w.begin (.act c a)).Meets c outcome w' := by
  unfold request at asked
  split at asked
  next grounded =>
    obtain ⟨there, named⟩ := (Bool.and_eq_true ..).mp grounded
    have ready := (sound.begin (.act c a)).readyFor (c := c) there
    have heeds : (a.perform h c).Heeds c (w.begin (.act c a)) := by
      cases a with
      | findClass name => exact ClassRegistry.find_heedful nests name _ ready
      | fetchClass name => exact ClassRegistry.fetch_heedful nests name _ ready
      | registerClass k => exact ClassRegistry.register_heeds nests ready named
      | registerModule m => exact Modules.register_heeds nests ready (.inl rfl)
      | _ => cases loads
    have meets := heeds.meets
    rwa [show a.perform h c _ = _ from asked] at meets
  next =>
    cases asked
    exact .of_direct (World.direct_of_same rfl) (List.forall_mem_nil _)

end ScriptHost
