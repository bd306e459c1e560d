import ScriptHost.Proofs.Calls.Slots
import ScriptHost.Proofs.Embedder.Invariants
import ScriptHost.Proofs.Embedder.Requests

set_option autoImplicit false

namespace ScriptHost

variable {σ τ β : Type} {making : List ContextId}

namespace CallStack

variable {α : Type} {s rest : CallStack α}

def IsWhole (s : CallStack α) : Prop := ∃ items, s.Holds items

theorem isWhole_empty : (empty : CallStack α).IsWhole := ⟨[], holds_empty⟩

theorem IsWhole.push (whole : s.IsWhole) (a : α) : (s.push a).IsWhole ∧
    (s.push a).toList = s.toList ++ [a] := by
  obtain ⟨items, holds⟩ := whole
  have pushed := holds.push a
  exact ⟨⟨_, pushed⟩, by rw [pushed.toList, holds.toList]⟩

theorem IsWhole.pop? (whole : s.IsWhole) : s.pop? = none ∧ s.toList = [] ∨
    ∃ top rest, s.pop? = some (top, rest) ∧ rest.IsWhole ∧ rest.toList = s.toList.dropLast := by
  obtain ⟨items, holds⟩ := whole
  rcases List.eq_nil_or_concat items with rfl | ⟨below, a, rfl⟩
  · exact .inl ⟨holds.pop?_nil, holds.toList⟩
  · rw [List.concat_eq_append] at holds
    obtain ⟨rest, popped, left⟩ := holds.pop?_concat
    refine .inr ⟨_, rest, popped, ⟨below, left⟩, ?_⟩
    rw [left.toList, holds.toList, List.dropLast_concat]

theorem IsWhole.mapFrames (whole : s.IsWhole) (f : α → α) : (s.mapFrames f).IsWhole ∧
    (s.mapFrames f).toList = s.toList.map f := by
  obtain ⟨items, holds⟩ := whole
  have mapped := holds.mapFrames f
  exact ⟨⟨_, mapped⟩, by rw [mapped.toList, holds.toList]⟩

theorem IsWhole.modifyAt (whole : s.IsWhole) {distance : Int} {a : α}
    (there : s.peek distance = some a) (f : α → α) : (s.modifyAt distance f).IsWhole ∧
      ∃ i, s.toList[i]? = some a ∧ (s.modifyAt distance f).toList = s.toList.modify i f := by
  obtain ⟨items, holds⟩ := whole
  obtain ⟨i, at_i, modified⟩ := holds.peek there
  exact ⟨⟨_, modified f⟩, i, by rw [holds.toList, at_i], by rw [(modified f).toList, holds.toList]⟩

end CallStack

namespace World

structure IsRegular (w : World τ) : Prop where
  sound : w.Sound
  whole : ∀ c, (w.context c).calls.IsWhole

namespace IsRegular

variable {w : World τ} {c : ContextId}

theorem updateContext (regular : w.IsRegular) {f : Context → Context}
    (sound : (w.updateContext c f).Sound) (keeps : (f (w.context c)).calls.IsWhole) :
    (w.updateContext c f).IsRegular := by
  refine ⟨sound, fun d => ?_⟩
  rw [context_updateContext]
  split
  next here => exact here.1 ▸ keeps
  next => exact regular.whole d

theorem insertClass (regular : w.IsRegular) (c : ContextId) {k : ClassId}
    (known : w.classes.has k) : (w.insertClass c k).IsRegular :=
  regular.updateContext (regular.sound.insertClass c k known) (regular.whole c)

theorem pushFrame (regular : w.IsRegular) {f : Frame} (known : f.IsKnown w) :
    (w.pushFrame c f).IsRegular :=
  regular.updateContext (regular.sound.pushFrame c known) ((regular.whole c).push _).1

theorem popFrame (regular : w.IsRegular) : (w.popFrame c).IsRegular := by
  have sound := regular.sound.popFrame c
  rcases (regular.whole c).pop? with ⟨none, -⟩ | ⟨top, rest, popped, left, -⟩
  · rwa [World.popFrame, none]
  · unfold World.popFrame at sound ⊢
    rw [popped] at sound ⊢
    exact regular.updateContext sound left

theorem markFinalized (regular : w.IsRegular) (o : ObjectId) : (w.markFinalized o).IsRegular :=
  ⟨regular.sound.markFinalized o, regular.whole⟩

theorem reclaim (regular : w.IsRegular) (d : ContextId) (handle : Nat) :
    (w.reclaim d handle).IsRegular :=
  regular.updateContext (regular.sound.reclaim d handle) (regular.whole d)

theorem retire {w v : Recorded σ} {d : ContextId} {o : ObjectId} (regular : w.IsRegular)
    (retires : w.Retires d o v) : v.IsRegular := by
  cases retires with
  | asked => exact regular.markFinalized o
  | visited handle => exact (regular.markFinalized o).reclaim d handle

theorem setImporting (regular : w.IsRegular) (s : ScopeId) (isImporting : Bool) :
    (w.setImporting s isImporting).IsRegular :=
  ⟨regular.sound.setImporting s isImporting, regular.whole⟩

theorem updateLoaders (regular : w.IsRegular) (d : ContextId)
    (f : AutoloadChain → AutoloadChain) : (w.updateLoaders d f).IsRegular :=
  regular.updateContext (regular.sound.updateLoaders d f) (regular.whole d)

theorem enlist (regular : w.IsRegular) {s : ScopeId} (known : w.scopes.has s) (sink : SinkId) :
    (w.enlist s sink).IsRegular := by
  refine ⟨regular.sound.enlist known sink, fun c => ?_⟩
  show ((w.contexts.add (w.newcomer s sink)).get c).calls.IsWhole
  rw [Pool.get_add]
  split
  next => exact CallStack.isWhole_empty
  next => exact regular.whole c

end IsRegular

theorem start_isRegular (files : FileTree) (own : σ) : (World.start files own).IsRegular :=
  ⟨start_sound files own, fun _ => CallStack.isWhole_empty⟩

theorem IsRegular.unrecorded {w : Recorded σ} (regular : w.IsRegular) : w.unrecorded.IsRegular :=
  ⟨regular.sound.unrecorded, regular.whole⟩

theorem IsRegular.note {w : Recorded σ} (regular : w.IsRegular) (event : Event) :
    (w.note event).IsRegular :=
  ⟨regular.sound.note event, regular.whole⟩

theorem IsRegular.begin {w : Recorded σ} (regular : w.IsRegular) (o : Operation) :
    (w.begin o).IsRegular :=
  ⟨regular.sound.begin o, regular.whole⟩

end World

theorem Change.regular {w w' : Recorded σ} (step : Change making w w') (regular : w.IsRegular) :
    w'.IsRegular := by
  have sound := step.sound regular.sound
  cases step with
  | surroundings | addClass | addMethod | shareClass | addFunction | shareFunction | addConstant
  | addModule | addObject | markFinalized | addScope | setDefaults | declareClass | declareFunction
  | declareConstant | note | setOwn => exact ⟨sound, regular.whole⟩
  | adjust c f adjusts =>
    exact regular.updateContext sound ((adjusts (w.context c)).calls ▸ regular.whole c)
  | pushCall c f a moves asked known => exact regular.pushFrame known
  | popCall c => exact regular.popFrame
  | assign c distance top args there =>
    exact regular.updateContext sound ((regular.whole c).modifyAt there _).1
  | remember c serial f => exact regular.updateContext sound ((regular.whole c).mapFrames _).1
  | close c =>
    refine ⟨sound, fun d => ?_⟩
    show ((w.shut c).context d).calls.IsWhole
    rw [World.shut, World.context_updateContext]
    split <;> exact regular.whole d
  | loadClass c | cacheFunction c | insertFunction c | mergeFunctions c | cacheConstant c
  | insertConstant c | inherit c | reclaim c | drain c | track c =>
    exact regular.updateContext sound (regular.whole c)

theorem World.regular_invariant : World.IsInvariant (World.IsRegular (τ := σ)) where
  change step regular :=
    (step.regular ⟨.of_unrecorded regular.sound, regular.whole⟩).unrecorded
  pushFrame _ _ known regular := regular.pushFrame known
  popFrame _ regular := regular.popFrame
  updateLoaders c f regular := regular.updateLoaders c f
  markFinalized o regular := regular.markFinalized o
  insertClass c _ known regular := regular.insertClass c known
  eraseClass c lower regular :=
    regular.updateContext (regular.sound.eraseClass c lower) (regular.whole c)
  recordModule c m regular :=
    regular.updateContext (regular.sound.recordModule c m) (regular.whole c)
  setImporting s isImporting regular := regular.setImporting s isImporting
  conclude s source m regular := by
    refine ⟨regular.sound.conclude s source m, fun c => ?_⟩
    rw [World.context, World.conclude_contexts]
    exact regular.whole c
  enlist sink known regular := regular.enlist known sink

theorem Course.regular {w w' : Recorded σ} (course : Course making w w') (regular : w.IsRegular) :
    w'.IsRegular ∧ w.Adds (·.world.IsRegular) w' := by
  obtain ⟨ended, within⟩ := course.throughout World.regular_invariant regular.unrecorded
  exact ⟨⟨.of_unrecorded ended.sound, ended.whole⟩, within⟩

theorem Script.regular_of_journal {ρ : Type} {s : Script σ} {depth : Nat} {code : Code σ ρ}
    {files : FileTree} {own : σ} {e : Moment σ} (member : e ∈ s.journal depth code files own) :
    e.world.IsRegular := by
  obtain ⟨-, new, journal, each⟩ :=
    (s.course depth code files own).regular (World.start_isRegular files own)
  refine each e ?_
  rwa [Script.journal, journal] at member

def Context.viewCalls (view : Activation → β) (x : Context) : List β := x.calls.toList.map view

structure Sees (view : Activation → β) (quiet : Action → Prop) : Prop where
  resolved : ∀ a b : Activation, a.serial = b.serial → a.frame = b.frame → view a = view b
  moves : ∀ a, quiet a → ¬ a.movesCalls
  assigned : ∀ a, quiet a → a.assigns → ∀ (x : Activation) args,
    view { x with frame := { x.frame with args } } = view x

def Event.IsQuiet (quiet : Action → Prop) (event : Event) : Prop :=
  ∀ c a outcome, event = .finished (.act c a) outcome → quiet a

section Calls

variable {w w' : World τ} {view : Activation → β} {c d : ContextId}

theorem World.viewCalls_updateContext (f : Context → Context)
    (same : (f (w.context c)).viewCalls view = (w.context c).viewCalls view) :
    ((w.updateContext c f).context d).viewCalls view = (w.context d).viewCalls view := by
  rw [context_updateContext]
  split
  next here => rw [← here.1, same]
  next => rfl

theorem World.viewCalls_of_unknown (unknown : ¬ w.contexts.has c) :
    (w.context c).viewCalls view = [] := by
  rw [context, Pool.get_of_not_has _ unknown]
  rfl

theorem World.viewCalls_leaveHook {w : Recorded σ} (lower : Bytes) (hook : Callback)
    (outcome : Except Signal (Option Failure)) :
    ((w.leaveHook c lower hook outcome).context d).viewCalls view =
      (w.context d).viewCalls view := by
  unfold World.leaveHook
  split
  next => exact World.viewCalls_updateContext _ rfl
  next => rfl

theorem World.viewCalls_popFrame {f : Frame} (regular : w.IsRegular) (ended : w'.IsRegular)
    (same : ∀ d, (w'.context d).viewCalls view = ((w.pushFrame c f).context d).viewCalls view) :
    ((w'.popFrame c).context d).viewCalls view = (w.context d).viewCalls view := by
  by_cases here : d = c
  · subst here
    -- a context that does not exist takes no frame, and has none to lose
    have before : (w'.context d).viewCalls view = (w.context d).viewCalls view ++
        if w.contexts.has d then [view ⟨(w.context d).nextSerial, f, none, none⟩] else [] := by
      rw [same d, pushFrame, context_updateContext]
      by_cases known : w.contexts.has d
      · simp [known, Context.viewCalls, Context.pushFrame, ((regular.whole d).push _).2]
      · simp [known]
    have popped : ((w'.popFrame d).context d).viewCalls view =
        ((w'.context d).viewCalls view).dropLast := by
      unfold popFrame
      rcases (ended.whole d).pop? with ⟨none, nil⟩ | ⟨top, rest, popped, -, left⟩
      · simp [none, Context.viewCalls, nil]
      · rw [popped]
        dsimp only
        rw [context_updateContext]
        split
        next => simp [Context.viewCalls, left]
        next unknown =>
          rw [viewCalls_of_unknown fun known => unknown ⟨rfl, known⟩, List.dropLast_nil]
    rw [popped, before]
    split
    next => exact List.dropLast_concat
    next unknown => rw [viewCalls_of_unknown unknown]; rfl
  · have pushed : (w.pushFrame c f).context d = w.context d := by
      rw [pushFrame, context_updateContext, if_neg fun both => here both.1.symm]
    have popped : (w'.popFrame c).context d = w'.context d := by
      unfold popFrame
      split
      next => rfl
      next => rw [context_updateContext, if_neg fun both => here both.1.symm]
    rw [popped, same d, pushed]

end Calls

variable {view : Activation → β} {quiet : Action → Prop}

theorem Change.viewCalls {w w' : Recorded σ} (step : Change making w w') (sees : Sees view quiet)
    (regular : w.IsRegular)
    (running : ∀ c a, w.embedder.running.head? = some (.act c a) → quiet a) (d : ContextId) :
    (w'.context d).viewCalls view = (w.context d).viewCalls view := by
  cases step with
  -- a frame that is left behind belongs to an operation in progress that is not quiet
  | pushCall c f a moves asked => exact absurd moves (sees.moves a (running c a asked))
  | popCall c a moves asked => exact absurd moves (sees.moves a (running c a asked))
  | assign c distance top args there a assigns asked =>
    refine World.viewCalls_updateContext _ ?_
    obtain ⟨-, i, at_i, modified⟩ := (regular.whole c).modifyAt there
      ({ · with frame := { top.frame with args } })
    -- the arguments at one position change, and they are not seen
    have blind := sees.assigned a (running c a asked) assigns top args
    unfold Context.viewCalls
    rw [modified]
    refine List.ext_getElem? fun j => ?_
    simp only [List.getElem?_map, List.getElem?_modify]
    by_cases here : i = j
    · subst here
      simp [at_i, blind]
    · simp [here]
  | remember c serial f keepsSerial keepsFrame =>
    refine World.viewCalls_updateContext _ ?_
    unfold Context.viewCalls Context.remember
    rw [((regular.whole c).mapFrames _).2, List.map_map]
    refine List.map_congr_left fun a _ => ?_
    dsimp only [Function.comp]
    split
    next => exact sees.resolved _ _ (keepsSerial a) (keepsFrame a)
    next => rfl
  | adjust c f adjusts =>
    refine World.viewCalls_updateContext f ?_
    rw [Context.viewCalls, (adjusts _).calls, Context.viewCalls]
  | close | loadClass | cacheFunction | insertFunction | mergeFunctions | cacheConstant
  | insertConstant | inherit | reclaim | drain | track => exact World.viewCalls_updateContext _ rfl
  | _ => rfl

theorem Course.viewCalls {w w' : Recorded σ} (course : Course making w w') (sees : Sees view quiet)
    (regular : w.IsRegular)
    (running : ∀ c a, w.embedder.running.head? = some (.act c a) → quiet a)
    (adds : w.Adds (·.event.IsQuiet quiet) w') (d : ContextId) :
    (w'.context d).viewCalls view = (w.context d).viewCalls view := by
  induction course generalizing d with
  | still => rfl
  | change step => exact step.viewCalls sees regular running d
  | trans first rest ih ih' =>
    obtain ⟨early, late⟩ := adds.split first.journal rest.journal
    rw [ih' (first.regular regular).1 (first.running ▸ running) late d, ih regular running early d]
  | @operation _ w w' o outcome inner _ _ ih =>
    -- that the operation is quiet is known from its end, which is recorded last
    obtain ⟨within, ended⟩ := adds.of_finish inner.journal
    refine ih (regular.begin o) ?_ within d
    rintro c a ⟨⟩
    exact ended c a outcome rfl
  | @frame _ w w' c f inner calls ih =>
    have pushed : (w.pushFrame c f).IsRegular := regular.pushFrame calls.known
    have within : w.Adds (·.event.IsQuiet quiet) w' :=
      (adds.split inner.journal (w'.journal_popFrame c)).1
    exact World.viewCalls_popFrame regular (inner.regular pushed).1 (ih pushed running within)
  | @autoload _ w w' c key _ _ inner _ ih =>
    have entered := ih (regular.updateLoaders c (·.enter key)) running adds d
    have left : ((w'.updateContext c fun x => { x with autoload := x.autoload.leave key }).context
        d).viewCalls view = (w'.context d).viewCalls view :=
      World.viewCalls_updateContext _ rfl
    exact left.trans (entered.trans (World.viewCalls_updateContext _ rfl))
  | @destructor _ w v w' c o k f _ known _ retires inner calls ih =>
    -- the destructor may unwind; its frame is popped in either case
    have given := regular.retire retires
    have called := (given.pushFrame (c := c) (calls.known.extend retires.extends)).note
      (.called (.destroyObject k c o))
    have same : (v.context d).viewCalls view = (w.context d).viewCalls view :=
      retires.elim (P := fun v => (v.context d).viewCalls view = (w.context d).viewCalls view) known
        calls.acts rfl fun step => step.viewCalls sees (regular.markFinalized o) running d
    obtain ⟨-, -, inside⟩ := adds.split_event (v := v.pushFrame c f)
      (retires.journal ▸ List.prefix_rfl) inner.journal (w'.journal_popFrame c)
    refine Eq.trans ?_ same
    exact World.viewCalls_popFrame given (inner.regular called).1
      (ih called (retires.running ▸ running) inside)
  | @hook _ w w' c k k' _ known _ _ outcome inner _ _ ih =>
    obtain ⟨-, -, inside⟩ := adds.split_event (v := w.insertClass c k) List.prefix_rfl inner.journal
      (w'.prefix_leaveHook c (w.classes.get k).lowerName k' outcome)
    have called := (regular.insertClass c known).note (.called (.enterClass k' c))
    rw [World.viewCalls_leaveHook, ih called running inside d]
    exact World.viewCalls_updateContext (w := w) _ rfl
  | @registration _ w w' c m _ _ inner _ ih =>
    exact (World.viewCalls_updateContext _ rfl).trans (ih regular running adds d)
  | attempt c _ _ inner ih => exact ih (regular.setImporting _ true) running adds d
  | @loading _ w u v w' c source _ _ _ before event m _ after ended ih ih' =>
    have locked := regular.setImporting (w.context c).scope true
    obtain ⟨early, -, late⟩ := adds.split_event before.journal after.journal ended.journal
    have first : (u.context d).viewCalls view = (w.context d).viewCalls view :=
      ih locked running early d
    have last := ih' ((before.regular locked).1.note event)
      (show ∀ c a, u.embedder.running.head? = some (.act c a) → quiet a from
        before.running ▸ running) late d
    show ((w'.contexts.get d).viewCalls view) = _
    rw [ended.contexts]
    exact last.trans first
  | @creation w w' s sink known _ inner ih =>
    rw [ih (regular.enlist known sink) running adds d]
    -- a context that has not been there has no calls, nor has a new one
    by_cases here : d = w.contexts.next
    · subst here
      rw [World.viewCalls_of_unknown fun known => Pool.ne_next_of_has _ known rfl]
      show ((w.contexts.add (w.newcomer s sink)).get w.contexts.next).viewCalls view = []
      rw [Pool.get_add_next]
      rfl
    · show ((w.contexts.add (w.newcomer s sink)).get d).viewCalls view = _
      rw [Pool.get_add, if_neg here]
      rfl

def Operation.asksFor (kind : Action → Bool) : Operation → Bool
  | .act _ a => kind a
  | _ => false

def Event.ends (kind : Action → Bool) : Event → Bool
  | .finished o _ => o.asksFor kind
  | _ => false

def World.since (w w' : Recorded σ) : List (Moment σ) :=
  w'.embedder.journal.drop w.embedder.journal.length

theorem World.adds_of_since {P : Moment σ → Prop} {w w' : Recorded σ}
    (later : w.embedder.journal <+: w'.embedder.journal) (each : ∀ m ∈ w.since w', P m) :
    w.Adds P w' := by
  obtain ⟨new, same⟩ := later
  refine ⟨new, same.symm, fun m member => each m ?_⟩
  rwa [World.since, ← same, List.drop_left]

theorem World.Adds.since {P : Moment σ → Prop} {w w' : Recorded σ} (adds : w.Adds P w') :
    ∀ m ∈ w.since w', P m := by
  obtain ⟨new, journal, each⟩ := adds
  rw [World.since, journal, List.drop_left]
  exact each

def Activation.call (a : Activation) : Nat × Frame := (a.serial, a.frame)

theorem sees_outline : Sees Activation.outline (fun a => a.movesCalls = false) where
  resolved a b serial frame := by rw [Activation.outline, serial, frame, Activation.outline]
  moves a still := by rw [still]; exact Bool.false_ne_true
  assigned _ _ _ _ _ := rfl

theorem sees_call : Sees Activation.call (fun a => a.movesCalls = false ∧ a.assigns = false) where
  resolved a b serial frame := by rw [Activation.call, serial, frame, Activation.call]
  moves a still := by rw [still.1]; exact Bool.false_ne_true
  assigned a still assigns := absurd assigns (by rw [still.2]; exact Bool.false_ne_true)

theorem Operation.request_calls {h : Host (Ledger σ)} (follows : h.Follows) {w w' : Recorded σ}
    (regular : w.IsRegular) (sees : Sees view quiet) {o : Operation}
    (asked : ∀ c a, o = .act c a → quiet a) {outcome : Except Signal o.Result}
    (result : o.request h (w.begin o) = (outcome, w'))
    (within : ∀ m ∈ w.since w', m.event.IsQuiet quiet) (c : ContextId) :
    (w'.context c).viewCalls view = (w.context c).viewCalls view := by
  have course := Operation.request_within follows regular.sound.ready o
  rw [result] at course
  refine course.viewCalls sees (regular.begin o) ?_ (World.adds_of_since course.journal within) c
  rintro d a ⟨⟩
  exact asked d a rfl

/-- Calls are balanced. An operation that is asked for in a regular world, and that neither starts
nor ends a call itself, leaves the calls of every context as it finds them, however it ends, unless
callbacks start or end calls meanwhile; only their arguments are other ones where they have been
assigned to. All worlds in all runs are regular. -/
theorem Script.calls_balanced (s : Script σ) (depth : Nat) :
    (∀ (ρ : Type) (code : Code σ ρ) (files : FileTree) (own : σ),
      (code.run (s.host depth) (.start files own)).2.IsRegular ∧
      ∀ m ∈ s.journal depth code files own, m.world.IsRegular) ∧
    ∀ (w w' : Recorded σ) (o : Operation) (outcome : Except Signal o.Result), w.IsRegular →
      o.request (s.host depth) (w.begin o) = (outcome, w') →
      o.asksFor Action.movesCalls = false →
      (∀ m ∈ w.since w', m.event.ends Action.movesCalls = false) →
      w'.IsRegular ∧ ∀ c,
        (w'.context c).viewCalls Activation.outline = (w.context c).viewCalls Activation.outline ∧
        (o.asksFor Action.assigns = false →
          (∀ m ∈ w.since w', m.event.ends Action.assigns = false) →
          (w'.context c).viewCalls Activation.call = (w.context c).viewCalls Activation.call) := by
  refine ⟨fun ρ code files own => ?_, fun w w' o outcome regular result still within => ?_⟩
  · obtain ⟨ended, _, journal, each⟩ :=
      (s.course depth code files own).regular (World.start_isRegular files own)
    refine ⟨ended, fun m member => each m ?_⟩
    rwa [Script.journal, journal] at member
  · have follows := s.host_follows depth
    have course := Operation.request_within follows regular.sound.ready o
    rw [result] at course
    refine ⟨(course.regular (regular.begin o)).1, fun c => ⟨?_, fun keeps kept => ?_⟩⟩
    -- arguments are no part of the outline of a call, so that assigning to them does not count
    · refine Operation.request_calls follows regular sees_outline ?_ result ?_ c
      · rintro d a rfl
        exact still
      · intro m member d a outcome same
        have moves := within m member
        rw [same] at moves
        exact moves
    · refine Operation.request_calls follows regular sees_call ?_ result ?_ c
      · rintro d a rfl
        exact ⟨still, keeps⟩
      · intro m member d a outcome same
        have moves := within m member
        have assigns := kept m member
        rw [same] at moves assigns
        exact ⟨moves, assigns⟩

def dying : Script Unit where
  patience := 1
  code
    | .compile .. => .ask (.newModule { (default : Module) with body := some ⟨1⟩ }) fun outcome =>
      .done (outcome.map .ok)
    | .runModule _ c _ => .ask (.act c (.die (.int .int 3))) fun outcome =>
      .done (outcome.map fun _ => .null)
    | _ => .done (.error .exhausted)

def insideCall : Recorded Unit :=
  ((Code.each () (compilingContext ++ [.act ⟨0⟩ (.pushCall { function := "main" })]) :
    Code Unit Unit).run (dying.host 2) (.start ((FileTree.make "/").writeFile "/a.php" "") ())).2

def dyingInclude : Operation := .act ⟨0⟩ (.includeFile .include "a.php" none {})

theorem calls_balanced_dying :
    (dyingInclude.request (dying.host 2) (insideCall.begin dyingInclude)).1.isOk = false ∧
    (∃ e ∈ insideCall.since (dyingInclude.request (dying.host 2) (insideCall.begin dyingInclude)).2,
      (e.world.context ⟨0⟩).depth = 2) ∧
    ((dyingInclude.request (dying.host 2) (insideCall.begin dyingInclude)).2.context ⟨0⟩).viewCalls
      Activation.call = (insideCall.context ⟨0⟩).viewCalls Activation.call := by
  obtain ⟨runs, balanced⟩ := dying.calls_balanced 2
  have result :=
    (Prod.eta (dyingInclude.request (dying.host 2) (insideCall.begin dyingInclude))).symm
  obtain ⟨-, calls⟩ := balanced insideCall _ dyingInclude _ (runs _ _ _ _).1 result rfl
    (by decide +kernel)
  exact ⟨by decide +kernel, by decide +kernel, (calls ⟨0⟩).2 rfl (by decide +kernel)⟩

end ScriptHost
