import ScriptHost.Proofs.Embedder.Following
import ScriptHost.Proofs.Embedder.Persistence

set_option autoImplicit false

namespace ScriptHost

variable {σ τ : Type} {making apart : List ContextId} {c : ContextId}

def Activation.memory (a : Activation) : Option ClassId × Option ClassId :=
  (a.declaringClass, a.staticClass)

structure World.GoesOn (w w' : Recorded σ) (c : ContextId) : Prop where
  calls : ∀ b ∈ (w'.context c).calls.toList, b.memory = (none, none) ∨
    ∃ a ∈ (w.context c).calls.toList, a.outline = b.outline ∧ a.memory = b.memory
  classes : w'.IsUnrefused → ∀ key k, key.head? ≠ some 0x5c →
    w.Resolves c (.ofClass key k) → w'.Resolves c (.ofClass key k)

namespace World.GoesOn

variable {w w' : Recorded σ}

theorem of_same (calls : (w'.context c).calls = (w.context c).calls)
    (classes : (w'.context c).classes = (w.context c).classes) : w.GoesOn w' c where
  calls b there := .inr ⟨b, calls ▸ there, rfl, rfl⟩
  classes _ key _ _ holds := (congrArg (Table.get? · key) classes).trans holds

theorem of_contexts (same : w'.contexts = w.contexts) : w.GoesOn w' c := by
  have context : w'.context c = w.context c := congrArg (·.get c) same
  exact .of_same (by rw [context]) (by rw [context])

theorem updateContext (d : ContextId) (f : Context → Context)
    (calls : ∀ x, (f x).calls = x.calls) (classes : ∀ x, (f x).classes = x.classes) :
    w.GoesOn (w.updateContext d f) c :=
  .of_same (w.contexts.modify_keeps d c f Context.calls calls)
    (w.contexts.modify_keeps d c f Context.classes classes)

end World.GoesOn

section Calls

variable {w : World τ} {d : ContextId} {b : Activation}

theorem World.mem_calls_updateContext {f : Context → Context}
    (there : b ∈ ((w.updateContext d f).context c).calls.toList) :
    b ∈ (w.context c).calls.toList ∨ d = c ∧ b ∈ (f (w.context c)).calls.toList := by
  rw [World.context_updateContext] at there
  split at there
  next here => exact .inr ⟨here.1, there⟩
  next => exact .inl there

theorem World.mem_calls_pushFrame {f : Frame}
    (there : b ∈ ((w.pushFrame d f).context c).calls.toList) :
    b ∈ (w.context c).calls.toList ∨ b.memory = (none, none) := by
  rcases World.mem_calls_updateContext there with before | ⟨-, pushed⟩
  · exact .inl before
  · rcases CallStack.mem_push pushed with before | rfl
    · exact .inl before
    · exact .inr rfl

theorem World.mem_calls_popFrame (there : b ∈ ((w.popFrame d).context c).calls.toList) :
    b ∈ (w.context c).calls.toList := by
  unfold World.popFrame at there
  split at there
  next => exact there
  next popped =>
    rcases World.mem_calls_updateContext there with before | ⟨rfl, rest⟩
    · exact before
    · exact CallStack.mem_pop? popped rest

end Calls

namespace World.GoesOn

variable (w : Recorded σ) (d : ContextId)

theorem pushFrame (f : Frame) : w.GoesOn (w.pushFrame d f) c where
  calls b there := (World.mem_calls_pushFrame there).symm.imp_right fun before =>
    ⟨b, before, rfl, rfl⟩
  classes _ _ _ _ holds := holds.pushFrame d f

theorem popFrame : w.GoesOn (w.popFrame d) c where
  calls b there := .inr ⟨b, World.mem_calls_popFrame there, rfl, rfl⟩
  classes _ _ _ _ holds := holds.popFrame d

theorem updateLoaders (f : AutoloadChain → AutoloadChain) : w.GoesOn (w.updateLoaders d f) c :=
  .updateContext d _ (fun _ => rfl) (fun _ => rfl)

theorem insertClass {k : ClassId} (entrance : w.Entrance making d k) (sound : w.Sound)
    (own : ∀ parent options,
      w.embedder.running.head? = some (.newChild parent options) → c ∉ making) :
    w.GoesOn (w.insertClass d k) c where
  calls b there :=
    .inr ⟨b, (World.mem_calls_updateContext there).elim id And.right, rfl, rfl⟩
  classes _ _ _ plain holds := holds.insertClass d k (entrance.apart sound own plain holds)

theorem leaveHook (lower : Bytes) (hook : Callback) (f : Failure) :
    (w.note (.answered (.enterClass hook d) (.ok (some f)))).GoesOn
      (w.leaveHook d lower hook (.ok (some f))) c where
  calls b there := .inr ⟨b,
    (World.mem_calls_updateContext (w := w.note _) there).elim id And.right, rfl, rfl⟩
  classes unrefused := absurd unrefused (w.isRefused_leaveHook d lower hook f)

end World.GoesOn

theorem World.Retains.before {w w' : Recorded σ} {k : ClassId} (onward : w.Extends w')
    (journal : w.embedder.journal <+: w'.embedder.journal) (stays : w'.Retains k) :
    w.Retains k := by
  refine ⟨fun m member => stays.1 m (journal.subset member), ?_⟩
  by_cases known : w.classes.has k
  · exact (onward.classes k known).2.1 ▸ stays.2
  · rw [Pool.get_of_not_has _ known]
    decide

namespace World.Recalls

variable {w : World τ} {stays stays' : ClassId → Prop} {a : Activation}

theorem blank (nothing : a.memory = (none, none)) : w.Recalls c stays a := by
  obtain ⟨declaring, static⟩ := Prod.mk.inj nothing
  constructor <;> simp [declaring, static]

theorem mono (recalls : w.Recalls c stays a) (fewer : ∀ k, stays' k → stays k) :
    w.Recalls c stays' a :=
  { recalls with
    declaring := fun k same there => recalls.declaring k same (fewer k there)
    static := fun k same there => recalls.static k same (fewer k there) }

theorem of_same {υ : Type} {v : World υ} (recalls : w.Recalls c stays a)
    (contexts : v.contexts = w.contexts) (objects : v.objects = w.objects) :
    v.Recalls c stays a where
  declaring k same there := by
    rw [World.Resolves, World.context, contexts]
    exact recalls.declaring k same there
  static k same there := by
    rw [World.Resolves, World.context, contexts]
    exact recalls.static k same there
  unbound some declared o self := by
    rw [objects]
    exact recalls.unbound some declared o self

theorem later {w w' : Recorded σ} {a b : Activation} (recalls : w.Recalls c w.Retains a)
    (sound : w.Sound) (onward : w.Extends w')
    (journal : w.embedder.journal <+: w'.embedder.journal)
    (classes : w'.IsUnrefused → ∀ key k, key.head? ≠ some 0x5c →
      w.Resolves c (.ofClass key k) → w'.Resolves c (.ofClass key k))
    (known : a.frame.IsKnown w) (outline : a.outline = b.outline) (memory : a.memory = b.memory) :
    w'.Recalls c w'.Retains b := by
  have declaring : a.frame.declaring = b.frame.declaring := congrArg (·.2.declaring) outline
  have called : a.frame.called = b.frame.called := congrArg (·.2.called) outline
  have self := Activation.self_of_outline outline
  obtain ⟨declaringClass, staticClass⟩ := Prod.mk.inj memory
  -- what stays in the later world has stayed up to there, and then its name kept its meaning
  have kept {key : Bytes} {k : ClassId} (stays : w'.Retains k)
      (holds : w.Retains k → w.Resolves c (.ofClass key k)) :
      w'.Resolves c (.ofClass key k) := by
    have before := stays.before onward journal
    obtain ⟨_, rfl⟩ := (sound.contexts c).declarations.classes key k (holds before)
    exact classes stays.1 _ k (mt (Bytes.head?_lower _).1 before.2) (holds before)
  refine ⟨fun k same stays => ?_, fun k same stays => ?_, fun some declared o named => ?_⟩
  · exact declaring ▸ kept stays (recalls.declaring k (declaringClass.trans same))
  · exact called ▸ kept stays (recalls.static k (staticClass.trans same))
  · have there := self.trans named
    rw [(onward.objects o (known o there)).2.2]
    exact recalls.unbound (staticClass ▸ some) (declaring ▸ declared) o there

end World.Recalls

theorem World.IsMindful.later {w w' : Recorded σ} (mindful : w.IsMindful c) (sound : w.Sound)
    (onward : w.Extends w') (journal : w.embedder.journal <+: w'.embedder.journal)
    (goesOn : w.GoesOn w' c) : w'.IsMindful c := by
  intro b there
  rcases goesOn.calls b there with nothing | ⟨a, before, outline, memory⟩
  · exact .blank nothing
  · exact (mindful a before).later sound onward journal goesOn.classes
      ((sound.contexts c).calls.known a before) outline memory

theorem Change.mindful {w w' : Recorded σ} (step : Change making w w') (sound : w.Sound)
    (own : ∀ parent options,
      w.embedder.running.head? = some (.newChild parent options) → c ∉ making)
    (mindful : w.IsMindful c) : w'.IsMindful c := by
  have classes := fun (_ : w'.IsUnrefused) key k (plain : key.head? ≠ some 0x5c)
    (holds : w.Resolves c (.ofClass key k)) => step.keepsClass sound own plain holds
  have onward := step.extends
  have later (calls : ∀ b ∈ (w'.context c).calls.toList, b.memory = (none, none) ∨
      ∃ a ∈ (w.context c).calls.toList, a.outline = b.outline ∧ a.memory = b.memory) :
      w'.IsMindful c :=
    mindful.later sound onward step.journal ⟨calls, classes⟩
  cases step with
  | surroundings | addClass | addMethod | shareClass | addFunction | shareFunction | addConstant
  | addModule | addObject | markFinalized | addScope | setDefaults | declareClass | declareFunction
  | declareConstant | note | setOwn => exact later fun b there => .inr ⟨b, there, rfl, rfl⟩
  | adjust d f adjusts =>
    have same : ((w.updateContext d f).context c).calls = (w.context c).calls :=
      w.contexts.modify_keeps d c f Context.calls fun x => (adjusts x).calls
    exact later fun b there => .inr ⟨b, same ▸ there, rfl, rfl⟩
  | pushCall d f => exact later (World.GoesOn.pushFrame w d f).calls
  | popCall d => exact later (World.GoesOn.popFrame w d).calls
  | close d =>
    exact later fun b there =>
      .inr ⟨b, (World.mem_calls_updateContext (w := w) there).elim id And.right, rfl, rfl⟩
  | loadClass d | cacheFunction d | insertFunction d | mergeFunctions d | cacheConstant d
  | insertConstant d | inherit d | reclaim d | drain d | track d =>
    exact later fun b there =>
      .inr ⟨b, (World.mem_calls_updateContext there).elim id And.right, rfl, rfl⟩
  | assign d distance top args peeked =>
    refine later fun b there => .inr ?_
    -- only arguments are assigned to, which are no part of what is compared
    rcases World.mem_calls_updateContext there with before | ⟨rfl, changed⟩
    · exact ⟨b, before, rfl, rfl⟩
    · rcases CallStack.mem_modifyAt peeked changed with before | rfl
      · exact ⟨b, before, rfl, rfl⟩
      · exact ⟨top, CallStack.mem_peek peeked, rfl, rfl⟩
  | remember d serial f keepsSerial keepsFrame recalls =>
    intro b there
    have old {a : Activation} (recalls : w.Recalls c w.Retains a) (known : a.frame.IsKnown w) :=
      recalls.later sound onward List.prefix_rfl classes known rfl rfl
    have known (a : Activation) (before : a ∈ (w.context c).calls.toList) :=
      (sound.contexts c).calls.known a before
    rcases World.mem_calls_updateContext there with before | ⟨rfl, changed⟩
    · exact old (mindful b before) (known b before)
    · obtain ⟨a, before, rfl⟩ := CallStack.mem_mapFrames changed
      split
      next same =>
        exact old (recalls a before same (mindful a before)) (keepsFrame a ▸ known a before)
      next => exact old (mindful a before) (known a before)

namespace Event

def inherits : Event → Bool
  | .finished (.newChild ..) _ => true
  | _ => false

end Event

/-- A context is returned. If it is a child, the classes that its calls remember by then are what
its class names resolve to. -/
structure Moment.Releases (m : Moment σ) (c : ContextId) : Prop where
  returned : m.event.returned = some c
  recalls : m.event.inherits → ∀ a ∈ (m.world.context c).calls.toList,
    m.world.Recalls c (fun _ => True) a

def World.HasReleased (w : Recorded σ) (c : ContextId) : Prop :=
  ∃ m ∈ w.embedder.journal, m.Releases c

structure World.IsTruthful (w : Recorded σ) (c : ContextId) (apart : List ContextId)
    (early : Prop) : Prop where
  placed : early ∨ w.HasReleased c → w.contexts.has c ∧ c ∉ apart
  mindful : early ∨ w.HasReleased c → w.IsMindful c
  kept : early ∨ ∀ before m after, w.embedder.journal = before ++ m :: after →
    (m.recall (before ++ [m])).HasReleased c → (m.recall (before ++ [m])).IsMindful c

namespace World.IsTruthful

variable {w w' : Recorded σ} {early : Prop}

theorem start (files : FileTree) (own : σ) : (World.start files own).IsTruthful c [] False where
  placed released := by
    obtain ⟨_, member, _⟩ := released.resolve_left id
    cases member
  mindful released := by
    obtain ⟨_, member, _⟩ := released.resolve_left id
    cases member
  kept := .inr fun _ _ _ split => nomatch (List.append_eq_nil_iff.1 split.symm).2

theorem step {apart' : List ContextId} (truthful : w.IsTruthful c apart early)
    (journal : w'.embedder.journal = w.embedder.journal) (onward : w.Extends w')
    (finished : w.contexts.has c → c ∉ apart → c ∉ apart')
    (keeps : w.contexts.has c → c ∉ apart → w.IsMindful c → w'.IsMindful c) :
    w'.IsTruthful c apart' early := by
  have released : early ∨ w'.HasReleased c → early ∨ w.HasReleased c :=
    Or.imp_right fun ⟨m, member, holds⟩ => ⟨m, journal ▸ member, holds⟩
  refine ⟨fun started => ?_, fun started => ?_,
    truthful.kept.imp_right fun kept before m after split => kept before m after (journal ▸ split)⟩
  · obtain ⟨there, outside⟩ := truthful.placed (released started)
    exact ⟨(onward.contexts c there).1, finished there outside⟩
  · obtain ⟨there, outside⟩ := truthful.placed (released started)
    exact keeps there outside (truthful.mindful (released started))

theorem goOn (truthful : w.IsTruthful c apart early) (sound : w.Sound)
    (journal : w'.embedder.journal = w.embedder.journal) (onward : w.Extends w')
    (goesOn : c ∉ apart → w.GoesOn w' c) : w'.IsTruthful c apart early :=
  truthful.step journal onward (fun _ outside => outside) fun _ outside mindful =>
    mindful.later sound onward (journal ▸ List.prefix_rfl) (goesOn outside)

theorem note (truthful : w.IsTruthful c apart early) (sound : w.Sound) (event : Event)
    (released : Moment.Releases ⟨event, w.embedder.running, w.unrecorded⟩ c →
      (w.contexts.has c ∧ c ∉ apart) ∧ w.IsMindful c) :
    (w.note event).IsTruthful c apart early := by
  have onward : w.IsMindful c → (w.note event).IsMindful c := fun mindful =>
    mindful.later sound (w.extends_note event) (List.prefix_append _ _) (.of_contexts rfl)
  have earlier (started : early ∨ (w.note event).HasReleased c) :
      (w.contexts.has c ∧ c ∉ apart) ∧ w.IsMindful c := by
    have now (started : early ∨ w.HasReleased c) :=
      And.intro (truthful.placed started) (truthful.mindful started)
    rcases started with started | ⟨m, member, holds⟩
    · exact now (.inl started)
    · rcases List.mem_append.1 member with old | last
      · exact now (.inr ⟨m, old, holds⟩)
      · exact released (List.mem_singleton.1 last ▸ holds)
  refine ⟨fun started => (earlier started).1, fun started => onward (earlier started).2,
    truthful.kept.imp_right fun kept before m after split => ?_⟩
  rcases split_concat split with ⟨rfl, rfl, rfl⟩ | ⟨after, rfl, old⟩
  · exact fun started => onward (earlier (.inr started)).2
  · exact kept before m after old

theorem noteCall (truthful : w.IsTruthful c apart early) (sound : w.Sound) (event : Event)
    (unfinished : ∀ o outcome, event ≠ .finished o outcome) :
    (w.note event).IsTruthful c apart early := by
  refine truthful.note sound event fun released => ?_
  have returned := released.returned
  cases event with
  | finished o outcome => exact absurd rfl (unfinished o outcome)
  | _ => cases returned

end World.IsTruthful

theorem World.IsTruthful.finish {w w' : Recorded σ} {early : Prop}
    (truthful : w'.IsTruthful c apart early) (sound : w'.Sound)
    (known : ∀ d ∈ apart, w.contexts.has d) (running : List Operation) {o : Operation}
    {outcome : Except Signal o.Result} (delivers : o.Delivers w outcome w') :
    (w'.finish running o outcome).IsTruthful c apart early := by
  let u : Recorded σ := { w' with embedder := { w'.embedder with running } }
  have same : w'.Extends u := .of_same rfl rfl rfl rfl rfl rfl rfl
  have onward : w'.IsMindful c → u.IsMindful c := fun mindful =>
    mindful.later sound same List.prefix_rfl (.of_contexts rfl)
  have ended : u.IsTruthful c apart early :=
    truthful.step rfl same (fun _ outside => outside) fun _ _ => onward
  refine ended.note (sound.extend same rfl rfl rfl) (.finished o outcome) fun released => ?_
  have makes := delivers.makes released.returned
  refine ⟨⟨makes.there, fun outside => Pool.ne_next_of_has _ (known c outside) makes.new⟩, ?_⟩
  have returned := released.returned
  unfold Event.returned at returned
  split at returned
  next ended =>
    cases ended
    cases returned
    exact onward (delivers c rfl).2
  next ended =>
    cases ended
    cases returned
    intro a there
    have recalls : u.Recalls c (fun _ => True) a := (released.recalls rfl a there).of_same rfl rfl
    exact recalls.mono fun _ _ => trivial
  next => cases returned

theorem Change.truthful {w w' : Recorded σ} {early : Prop} (step : Change making w w')
    (sound : w.Sound)
    (own : ∀ d ∈ making, d ∉ apart → ∀ parent options,
      w.embedder.running.head? ≠ some (.newChild parent options))
    (truthful : w.IsTruthful c apart early) : w'.IsTruthful c apart early := by
  have onward := step.extends
  have mindful (_ : w.contexts.has c) (outside : c ∉ apart) := step.mindful sound
    fun parent options running inside => own c inside outside parent options running
  cases step with
  | note event isPlain =>
    exact truthful.noteCall sound event (Event.ne_finished (Event.isEnd_of_isPlain isPlain))
  | popCall d =>
    exact truthful.step (congrArg _ (w.popFrame_embedder d)) onward (fun _ outside => outside)
      mindful
  | _ => exact truthful.step rfl onward (fun _ outside => outside) mindful

theorem World.IsTruthful.enlist {w : Recorded σ} {early : Prop}
    (truthful : w.IsTruthful c apart early) (sound : w.Sound) (s : ScopeId) (sink : SinkId) :
    (w.enlist s sink).IsTruthful c (w.contexts.next :: apart) early := by
  have onward := w.extends_enlist s sink
  refine truthful.step rfl onward (fun there outside => ?_) fun there _ mindful => ?_
  · exact List.not_mem_cons_of_ne_of_not_mem (Pool.ne_next_of_has _ there) outside
  · have same := w.context_enlist s sink there
    exact mindful.later sound onward List.prefix_rfl (.of_same (by rw [same]) (by rw [same]))

theorem World.IsTruthful.leaveHook {w : Recorded σ} {early : Prop}
    (truthful : w.IsTruthful c apart early) (sound : w.Sound) (d : ContextId) (lower : Bytes)
    (hook : Callback) (outcome : Except Signal (Option Failure)) :
    (w.leaveHook d lower hook outcome).IsTruthful c apart early := by
  have answered := truthful.noteCall sound (.answered (.enterClass hook d) outcome) fun _ _ => nofun
  rcases outcome with signal | _ | f
  · exact answered
  · exact answered
  · exact answered.goOn (sound.note _) rfl (.updateContext _ d _ (.of_same rfl rfl rfl rfl rfl rfl))
      fun _ => .leaveHook w d lower hook f

theorem Course.truthful {w w' : Recorded σ} {early : Prop} (course : Course making w w')
    (sound : w.Sound) (known : ∀ d ∈ apart, w.contexts.has d)
    (own : ∀ d ∈ making, d ∉ apart → ∀ parent options,
      w.embedder.running.head? ≠ some (.newChild parent options))
    (truthful : w.IsTruthful c apart early) : w'.IsTruthful c apart early := by
  -- the contexts that stand apart are generalized: those being made do, unless it is known that none
  -- of them is a child, which would take over classes
  induction course generalizing apart with
  | still => exact truthful
  | change step => exact step.truthful sound own truthful
  | trans first rest ih ih' =>
    exact ih' (first.sound sound) (first.extends.all_has known) (first.running ▸ own)
      (ih sound known own truthful)
  | @operation _ w w' o outcome inner delivers _ ih =>
    have begun : (w.begin o).IsTruthful c apart early :=
      truthful.goOn sound rfl (w.extends_begin o) fun _ => .of_contexts rfl
    exact (ih (sound.begin o) known (List.forall_mem_nil _) begun).finish (w := w.begin o)
      (inner.sound (sound.begin o)) known w.embedder.running delivers
  | @frame _ w w' d f inner calls ih =>
    have pushed : (w.pushFrame d f).IsTruthful c apart early :=
      truthful.goOn sound rfl (w.extends_pushFrame d f) fun _ => .pushFrame w d f
    have sound := sound.pushFrame d calls.known
    have there := (w.extends_pushFrame d f).all_has known
    exact (ih sound there own pushed).goOn (inner.sound sound)
      (congrArg _ (w'.popFrame_embedder d)) (w'.extends_popFrame d) fun _ => .popFrame w' d
  | @autoload _ w w' d key _ _ inner _ ih =>
    have entered : (w.updateLoaders d (·.enter key)).IsTruthful c apart early :=
      truthful.goOn sound rfl (w.extends_updateLoaders d _) fun _ => .updateLoaders w d _
    have sound := sound.updateLoaders d (·.enter key)
    have there := (w.extends_updateLoaders d (·.enter key)).all_has known
    exact (ih sound there own entered).goOn (inner.sound sound) rfl
      (w'.extends_updateLoaders d _) fun _ => .updateLoaders w' d _
  | @destructor _ w v w' d o k f _ object _ retires inner calls ih =>
    have marked : (w.markFinalized o).IsTruthful c apart early :=
      truthful.goOn sound rfl (.markFinalized w o) fun _ => .of_contexts rfl
    have given : v.IsTruthful c apart early := retires.elim object calls.acts marked
      fun step => step.truthful (sound.markFinalized o) own marked
    have pushed : (v.pushFrame d f).IsTruthful c apart early :=
      given.goOn (sound.retire retires) rfl (World.extends_pushFrame v d f) fun _ =>
        .pushFrame v d f
    have sound := sound.destroying retires calls.known
    have there := (retires.extends.trans (World.extends_pushFrame v d f)).all_has known
    have called := pushed.noteCall sound (.called (.destroyObject k d o)) fun _ _ => nofun
    exact (ih (sound.note _) there (retires.running ▸ own) called).goOn (inner.sound (sound.note _))
      (congrArg _ (w'.popFrame_embedder d)) (w'.extends_popFrame d) fun _ => .popFrame w' d
  | @hook _ w w' d k k' _ isKnown entrance _ outcome inner _ _ ih =>
    have inserted : (w.insertClass d k).IsTruthful c apart early :=
      truthful.goOn sound rfl (w.extends_insertClass d k) fun outside =>
        .insertClass w d entrance sound fun parent options running inside =>
          own c inside outside parent options running
    have sound := sound.insertClass d k isKnown
    have there := (w.extends_insertClass d k).all_has known
    have called := inserted.noteCall sound (.called (.enterClass k' d)) fun _ _ => nofun
    have ended := ih (sound.note _) there (List.forall_mem_nil _) called
    exact ended.leaveHook (inner.sound (sound.note _)) d _ k' outcome
  | @registration _ w w' d m _ _ inner _ ih =>
    exact (ih sound known own truthful).goOn (inner.sound sound) rfl (w'.extends_recordModule d m)
      fun _ => .updateContext d _ (fun _ => rfl) fun _ => rfl
  | @attempt _ w w' d _ _ inner ih =>
    have locked : (w.setImporting (w.context d).scope true).IsTruthful c apart early :=
      truthful.goOn sound rfl (w.extends_setImporting _ true) fun _ => .of_contexts rfl
    have sound := sound.setImporting (w.context d).scope true
    exact (ih sound known own locked).goOn (inner.sound sound) rfl
      (w'.extends_setImporting _ false) fun _ => .of_contexts rfl
  | @loading _ w u v w' d source _ _ _ inner event m loaded rest ended ih ih' =>
    have locked : (w.setImporting (w.context d).scope true).IsTruthful c apart early :=
      truthful.goOn sound rfl (w.extends_setImporting _ true) fun _ => .of_contexts rfl
    have sound := sound.setImporting (w.context d).scope true
    have answered : (u.note event).IsTruthful c apart early :=
      (ih sound known own locked).noteCall (inner.sound sound) event
        (Event.ne_finished (Event.isEnd_of_loaded loaded))
    have noted := (inner.sound sound).note event
    have kept := ih' noted (inner.extends.all_has known) (inner.running ▸ own) answered
    exact kept.goOn (rest.sound noted) (congrArg _ ended.embedder)
      (ended.extends.trans (w'.extends_setImporting _ false)) fun _ => .of_contexts ended.contexts
  | @creation w w' s sink housed _ inner ih =>
    have there : ∀ e ∈ w.contexts.next :: apart, (w.enlist s sink).contexts.has e :=
      List.forall_mem_cons.2 ⟨Pool.has_next_add .., (w.extends_enlist s sink).all_has known⟩
    have listed : [w.contexts.next] ⊆ w.contexts.next :: apart := by simp
    have made := ih (sound.enlist housed sink) there
      (fun d inside outside => absurd (listed inside) outside) (truthful.enlist sound s sink)
    exact made.step rfl (.refl _) (fun _ outside => mt (List.mem_cons_of_mem _) outside)
      fun _ _ mindful => mindful

theorem Course.mindful_of_parentless {w w' : Recorded σ} {s : ScopeId} {sink : SinkId}
    (course : Course [w.contexts.next] (w.enlist s sink) w') (sound : w.Sound)
    (known : w.scopes.has s)
    (parentless : ∀ parent options, w.embedder.running.head? ≠ some (.newChild parent options)) :
    w'.IsMindful w.contexts.next := by
  have new : (w.enlist s sink).context w.contexts.next = w.newcomer s sink :=
    (w.provide s).contexts.get_add_next _
  have enlisted : (w.enlist s sink).IsTruthful w.contexts.next [] True :=
    { placed := fun _ => ⟨Pool.has_next_add .., List.not_mem_nil⟩
      mindful := fun _ a there => by
        rw [new] at there
        cases there
      kept := .inl trivial }
  have made := course.truthful (sound.enlist known sink) (List.forall_mem_nil _)
    (fun _ _ _ => parentless) enlisted
  exact made.mindful (.inl trivial)

end ScriptHost
