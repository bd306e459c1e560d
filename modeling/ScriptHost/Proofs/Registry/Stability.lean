import ScriptHost.Proofs.Embedder.Requests

set_option autoImplicit false

namespace ScriptHost

open Run

variable {σ : Type} {making apart : List ContextId}

structure World.HasPlainNames {τ : Type} (w : World τ) : Prop where
  classes : ∀ e ∈ w.classes.entries, e.name.head? ≠ some 0x5c
  functions : ∀ e ∈ w.functions.entries, e.name.head? ≠ some 0x5c
  constants : ∀ e ∈ w.constants.entries, e.name.head? ≠ some 0x5c

namespace World.HasPlainNames

variable {τ : Type} {w : World τ}

instance : Decidable w.HasPlainNames :=
  decidable_of_iff (_ ∧ _ ∧ _)
    ⟨fun ⟨classes, functions, constants⟩ => ⟨classes, functions, constants⟩,
      fun plain => ⟨plain.classes, plain.functions, plain.constants⟩⟩

theorem classOf (plain : w.HasPlainNames) (k : ClassId) :
    (w.classes.get k).name.head? ≠ some 0x5c :=
  Pool.get_of_all (P := fun e : Class => e.name.head? ≠ some 0x5c) plain.classes (by decide) k

theorem functionOf (plain : w.HasPlainNames) (f : FunctionId) :
    (w.functions.get f).name.head? ≠ some 0x5c :=
  Pool.get_of_all (P := fun e : Function => e.name.head? ≠ some 0x5c) plain.functions (by decide) f

theorem constantOf (plain : w.HasPlainNames) (k : ConstantId) :
    (w.constants.get k).name.head? ≠ some 0x5c :=
  Pool.get_of_all (P := fun e : Constant => e.name.head? ≠ some 0x5c) plain.constants (by decide) k

theorem resolution (plain : w.HasPlainNames) (sound : w.Sound) {c : ContextId} {r : Resolution}
    (holds : w.Resolves c r) : r.IsPlain := by
  cases r with
  | ofClass key k =>
    obtain ⟨_, rfl⟩ := (sound.contexts c).declarations.classes key k holds
    exact mt (Bytes.head?_lower _).1 (plain.classOf k)
  | ofFunction key f =>
    obtain ⟨_, rfl⟩ := (sound.contexts c).declarations.functions key f holds
    exact mt (Bytes.head?_lower _).1 (plain.functionOf f)
  | ofConstant name k =>
    have own := ((sound.contexts c).declarations.find_constant holds).2
    intro separated
    split at own
    next => exact plain.constantOf k (own ▸ separated)
    next =>
      have lowered : (w.constants.get k).lowerName.head? = some 0x5c :=
        own ▸ (Bytes.head?_lower _).2 separated
      exact plain.constantOf k ((Bytes.head?_lower _).1 lowered)

end World.HasPlainNames

/-- What a lookup that has this result has found. A class with a second separator in front of its
name is left out, because the context never holds it under that name. -/
def Action.finds : (a : Action) → a.Result → Option Resolution
  | .findClass name, some k => some (.ofClass (withoutSeparator name).lower k)
  | .fetchClass name, some k =>
    if (withoutSeparator name).head? = some 0x5c then none
    else some (.ofClass (withoutSeparator name).lower k)
  | .fetchFunction name, some f => some (.ofFunction (withoutSeparator name).lower f)
  | .findConstant name, some k => some (.ofConstant (withoutSeparator name) k)
  | _, _ => none

namespace Event

def found : Event → Option (ContextId × Resolution)
  | .finished (.act c a) (.ok result) => (a.finds result).map (c, ·)
  | _ => none

end Event

namespace Action

variable {c : ContextId} {a : Action} {result : a.Result} {r : Resolution}

inductive Finds : (a : Action) → a.Result → Resolution → Prop
  | findClass (name : Bytes) (k : ClassId) :
      Finds (.findClass name) (some k) (.ofClass (withoutSeparator name).lower k)
  | fetchClass (name : Bytes) (k : ClassId) (single : (withoutSeparator name).head? ≠ some 0x5c) :
      Finds (.fetchClass name) (some k) (.ofClass (withoutSeparator name).lower k)
  | fetchFunction (name : Bytes) (f : FunctionId) :
      Finds (.fetchFunction name) (some f) (.ofFunction (withoutSeparator name).lower f)
  | findConstant (name : Bytes) (k : ConstantId) :
      Finds (.findConstant name) (some k) (.ofConstant (withoutSeparator name) k)

theorem Finds.of_finds (finds : a.finds result = some r) : a.Finds result r := by
  unfold Action.finds at finds
  split at finds
  next name k => cases finds; exact .findClass name k
  next name k =>
    obtain ⟨single, found⟩ := Option.ite_none_left_eq_some.1 finds
    cases found
    exact .fetchClass name k single
  next name f => cases finds; exact .fetchFunction name f
  next name k => cases finds; exact .findConstant name k
  next => cases finds

theorem perform_of_resolves {τ : Type} (h : Host τ) {w : World τ} (finds : a.finds result = some r)
    (holds : w.Resolves c r) : a.perform h c w = (.ok result, w) := by
  cases Finds.of_finds finds with
  | findClass => exact ClassRegistry.find_loaded h c w holds
  | fetchClass => exact bind_ok (ClassRegistry.find_loaded h c w holds)
  | fetchFunction => exact FunctionRegistry.fetch_loaded holds
  | findConstant => exact ConstantRegistry.find_loaded holds

theorem resolves_of_delivers {w w' : Recorded σ} (finds : a.finds result = some r)
    (delivers : Operation.Delivers w (.act c a) (.ok result) w') (unrefused : w'.IsUnrefused)
    (plain : w'.HasPlainNames) : w'.Resolves c r := by
  cases Finds.of_finds finds with
  | findClass name k => exact delivers.present k rfl ⟨unrefused, plain.classOf k⟩
  | fetchClass name k single => exact (delivers single).present k rfl ⟨unrefused, plain.classOf k⟩
  | fetchFunction name f => exact delivers.present f rfl trivial
  | findConstant name k => exact delivers.present k rfl trivial

theorem result_of_resolves {w w' : Recorded σ} {other : a.Result}
    (finds : a.finds result = some r) (holds : w'.Resolves c r)
    (delivers : Operation.Delivers w (.act c a) (.ok other) w') (unrefused : w'.IsUnrefused)
    (plain : w'.HasPlainNames) : other = result := by
  -- the lookup has ended with nothing, against what the context holds, or with what it holds
  cases Finds.of_finds finds with
  | findClass name k =>
    cases other with
    | none => exact absurd holds (delivers.absent rfl k)
    | some k' => exact (delivers.present k' rfl ⟨unrefused, plain.classOf k'⟩).symm.trans holds
  | fetchClass name k single =>
    cases other with
    | none => exact absurd holds ((delivers single).absent rfl k)
    | some k' =>
      exact ((delivers single).present k' rfl ⟨unrefused, plain.classOf k'⟩).symm.trans holds
  | fetchFunction name f =>
    cases other with
    | none => exact absurd holds (delivers.absent rfl f)
    | some f' => exact (delivers.present f' rfl trivial).symm.trans holds
  | findConstant name k =>
    cases other with
    | none => exact absurd holds (delivers.absent rfl k)
    | some k' => exact (delivers.present k' rfl trivial).symm.trans holds

end Action

def Settles (journal : List (Moment σ)) (c : ContextId) (r : Resolution) : Prop :=
  ∃ before found after, journal = before ++ found :: after ∧
    (∃ made ∈ before, made.event.returned = some c) ∧ found.event.found = some (c, r)

theorem settles_concat {journal : List (Moment σ)} {m : Moment σ} {c : ContextId} {r : Resolution}
    (settles : Settles (journal ++ [m]) c r) : Settles journal c r ∨
      (∃ made ∈ journal, made.event.returned = some c) ∧ m.event.found = some (c, r) := by
  obtain ⟨before, found, after, same, made, finds⟩ := settles
  rcases split_concat same with ⟨rfl, rfl, rfl⟩ | ⟨after, rfl, rfl⟩
  · exact .inr ⟨made, finds⟩
  · exact .inl ⟨before, found, after, rfl, made, finds⟩

def Moment.Agrees (m : Moment σ) : Prop :=
  ∀ c a other result r, m.event = .finished (.act c a) (.ok other) → a.finds result = some r →
    m.world.Resolves c r → other = result

structure World.IsSteady (w : Recorded σ) (apart : List ContextId) : Prop where
  returned : ∀ m ∈ w.embedder.journal, ∀ c, m.event.returned = some c →
    w.contexts.has c ∧ c ∉ apart
  resolved : ∀ c r, Settles w.embedder.journal c r → r.IsPlain ∧ w.Resolves c r
  kept : ∀ before m after, w.embedder.journal = before ++ m :: after →
    ∀ c r, Settles (before ++ [m]) c r → m.world.Resolves c r
  agrees : ∀ m ∈ w.embedder.journal, m.Agrees

namespace World.IsSteady

variable {w w' : Recorded σ}

theorem start (files : FileTree) (own : σ) : (World.start files own).IsSteady [] where
  returned m member := nomatch member
  resolved c r := by
    rintro ⟨before, found, after, same, _⟩
    exact nomatch (List.append_eq_nil_iff.1 same.symm).2
  kept before m after same := nomatch (List.append_eq_nil_iff.1 same.symm).2
  agrees m member := nomatch member

theorem later {apart' : List ContextId} (steady : w.IsSteady apart)
    (journal : w'.embedder.journal = w.embedder.journal) (onward : w.Extends w')
    (finished : ∀ c, w.contexts.has c → c ∉ apart → c ∉ apart')
    (keeps : ∀ c r, w.contexts.has c → c ∉ apart → r.IsPlain → w.Resolves c r → w'.Resolves c r) :
    w'.IsSteady apart' where
  returned m member c made := by
    obtain ⟨known, outside⟩ := steady.returned m (journal ▸ member) c made
    exact ⟨(onward.contexts c known).1, finished c known outside⟩
  resolved c r settles := by
    rw [journal] at settles
    have ⟨before, found, after, same, ⟨made, earlier, returns⟩, _⟩ := settles
    have member : made ∈ w.embedder.journal := same ▸ List.mem_append_left _ earlier
    obtain ⟨known, outside⟩ := steady.returned made member c returns
    obtain ⟨plain, holds⟩ := steady.resolved c r settles
    exact ⟨plain, keeps c r known outside plain holds⟩
  kept before m after same := steady.kept before m after (journal ▸ same)
  agrees m member := steady.agrees m (journal ▸ member)

theorem goOn (steady : w.IsSteady apart) (journal : w'.embedder.journal = w.embedder.journal)
    (onward : w.Extends w') (keeps : ∀ {c r}, w.Resolves c r → w'.Resolves c r) :
    w'.IsSteady apart :=
  steady.later journal onward (fun _ _ outside => outside) fun _ _ _ _ _ holds => keeps holds

theorem note (steady : w.IsSteady apart) (event : Event)
    (returned : ∀ c, event.returned = some c → w.contexts.has c ∧ c ∉ apart)
    (found : ∀ c r, event.found = some (c, r) → r.IsPlain ∧ w.Resolves c r)
    (agrees : Moment.Agrees ⟨event, w.embedder.running, w.unrecorded⟩) :
    (w.note event).IsSteady apart := by
  have resolved : ∀ c r, Settles (w.note event).embedder.journal c r →
      r.IsPlain ∧ w.Resolves c r := by
    intro c r settles
    rcases settles_concat settles with earlier | ⟨_, finds⟩
    · exact steady.resolved c r earlier
    · exact found c r finds
  refine ⟨fun m member c made => ?_, resolved, fun before m after same c r settles => ?_,
    fun m member => ?_⟩
  · rcases List.mem_append.1 member with earlier | last
    · exact steady.returned m earlier c made
    · rw [List.mem_singleton.1 last] at made
      exact returned c made
  · rcases split_concat same with ⟨rfl, rfl, rfl⟩ | ⟨after, rfl, earlier⟩
    · exact (resolved c r settles).2
    · exact steady.kept before m after earlier c r settles
  · rcases List.mem_append.1 member with earlier | last
    · exact steady.agrees m earlier
    · rw [List.mem_singleton.1 last]
      exact agrees

theorem noteCall (steady : w.IsSteady apart) (event : Event)
    (unfinished : ∀ o outcome, event ≠ .finished o outcome) : (w.note event).IsSteady apart := by
  refine steady.note event (fun c made => ?_) (fun c r found => ?_) fun c a other result r same => ?_
  · cases event with
    | finished o outcome => exact absurd rfl (unfinished o outcome)
    | _ => cases made
  · cases event with
    | finished o outcome => exact absurd rfl (unfinished o outcome)
    | _ => cases found
  · exact absurd same (unfinished _ _)

end World.IsSteady

def World.IsOrderly (w : Recorded σ) : Prop :=
  ∀ m ∈ w.embedder.journal, m.event.isRefusal = false ∧ m.world.HasPlainNames

theorem World.IsOrderly.before {w w' : Recorded σ} (course : Course making w w')
    (orderly : w'.IsOrderly) : w.IsOrderly :=
  fun m member => orderly m (course.journal.subset member)

theorem Change.steady {w w' : Recorded σ} (step : Change making w w') (sound : w.Sound)
    (inside : making ⊆ apart) (steady : w.IsSteady apart) : w'.IsSteady apart := by
  have onward := step.extends
  have keeps : ∀ c r, w.contexts.has c → c ∉ apart → r.IsPlain → w.Resolves c r → w'.Resolves c r :=
    fun c r _ outside plain holds => step.keeps sound (mt (@inside c) outside) plain holds
  cases step with
  | note event isPlain =>
    exact steady.noteCall event (Event.ne_finished (Event.isEnd_of_isPlain isPlain))
  | popCall c =>
    exact steady.later (congrArg _ (w.popFrame_embedder c)) onward (fun _ _ outside => outside) keeps
  | _ => exact steady.later rfl onward (fun _ _ outside => outside) keeps

theorem World.IsSteady.finish {w w' : Recorded σ} (steady : w'.IsSteady apart) (sound : w'.Sound)
    (known : ∀ c ∈ apart, w.contexts.has c) (running : List Operation) {o : Operation}
    {outcome : Except Signal o.Result} (delivers : o.Delivers w outcome w')
    (orderly : (w'.finish running o outcome).IsOrderly) :
    (w'.finish running o outcome).IsSteady apart := by
  let u : Recorded σ := { w' with embedder := { w'.embedder with running } }
  have ended : u.IsSteady apart :=
    steady.goOn rfl (.of_same rfl rfl rfl rfl rfl rfl rfl) fun holds => holds
  have unrefused : w'.IsUnrefused := fun m member => (orderly m (List.mem_append_left _ member)).1
  have plain : w'.HasPlainNames :=
    have last := (orderly ⟨.finished o outcome, running, u.unrecorded⟩
      (List.mem_append_right _ List.mem_cons_self)).2
    ⟨last.classes, last.functions, last.constants⟩
  refine ended.note (.finished o outcome) (fun c made => ?_) (fun c r found => ?_) ?_
  · have makes := delivers.makes made
    exact ⟨makes.there, fun outside => Pool.ne_next_of_has _ (known c outside) makes.new⟩
  · unfold Event.found at found
    split at found
    next a result same =>
      cases same
      obtain ⟨r', finds, ⟨⟩⟩ := Option.map_eq_some_iff.1 found
      have holds := Action.resolves_of_delivers finds delivers unrefused plain
      exact ⟨plain.resolution sound holds, holds⟩
    next => cases found
  · rintro c a other result r ⟨⟩ finds holds
    exact Action.result_of_resolves finds holds delivers unrefused plain

theorem World.IsSteady.insertClass {w : Recorded σ} (steady : w.IsSteady apart) (sound : w.Sound)
    (inside : making ⊆ apart) {c : ContextId} {k : ClassId} (entrance : w.Entrance making c k) :
    (w.insertClass c k).IsSteady apart :=
  steady.later rfl (w.extends_insertClass c k) (fun _ _ outside => outside)
    fun d _ _ outside plain holds =>
      holds.insertClass c k (entrance.apart sound (fun _ _ _ => mt (@inside d) outside) plain holds)

theorem World.IsSteady.enlist {w : Recorded σ} (steady : w.IsSteady apart) (s : ScopeId)
    (sink : SinkId) : (w.enlist s sink).IsSteady (w.contexts.next :: apart) := by
  refine steady.later rfl (w.extends_enlist s sink) (fun c known outside => ?_)
    fun c r known _ _ holds => ?_
  · exact List.not_mem_cons_of_ne_of_not_mem (Pool.ne_next_of_has _ known) outside
  · unfold World.Resolves
    rwa [World.context_enlist w s sink known]

theorem Course.steady {w w' : Recorded σ} (course : Course making w w') (sound : w.Sound)
    (known : ∀ c ∈ apart, w.contexts.has c) (inside : making ⊆ apart) (orderly : w'.IsOrderly)
    (steady : w.IsSteady apart) : w'.IsSteady apart := by
  -- the contexts that stand apart are generalized, since they grow with those being made: inside of
  -- an operation or of a hook nothing is being made, but what is made outside still stands apart
  induction course generalizing apart with
  | still => exact steady
  | change step => exact step.steady sound inside steady
  | trans first rest ih ih' =>
    exact ih' (first.sound sound) (first.extends.all_has known) inside orderly
      (ih sound known inside (orderly.before rest) steady)
  | @operation _ w w' o outcome inner delivers _ ih =>
    have begun : (w.begin o).IsSteady apart :=
      steady.goOn rfl (w.extends_begin o) fun holds => holds
    have before : w'.IsOrderly := fun m member => orderly m (List.mem_append_left _ member)
    have ended := ih (sound.begin o) known (List.nil_subset _) before begun
    exact ended.finish (w := w.begin o) (inner.sound (sound.begin o)) known w.embedder.running
      delivers orderly
  | @frame _ w w' c f inner calls ih =>
    have pushed : (w.pushFrame c f).IsSteady apart :=
      steady.goOn rfl (w.extends_pushFrame c f) (·.pushFrame c f)
    have same : (w'.popFrame c).embedder = w'.embedder := w'.popFrame_embedder c
    have ended := ih (sound.pushFrame c calls.known) ((w.extends_pushFrame c f).all_has known) inside
      (fun m member => orderly m (same ▸ member)) pushed
    exact ended.goOn (congrArg _ same) (w'.extends_popFrame c) (·.popFrame c)
  | @autoload _ w w' c key _ _ inner _ ih =>
    have entered : (w.updateLoaders c (·.enter key)).IsSteady apart :=
      steady.goOn rfl (w.extends_updateLoaders c _) (·.updateLoaders c _)
    have ended := ih (sound.updateLoaders c _) ((w.extends_updateLoaders c (·.enter key)).all_has known)
      inside orderly entered
    exact ended.goOn rfl (w'.extends_updateLoaders c _) (·.updateLoaders c _)
  | @destructor _ w v w' c o k f _ there _ retires inner calls ih =>
    have marked : (w.markFinalized o).IsSteady apart :=
      steady.goOn rfl (.markFinalized w o) id
    have given : v.IsSteady apart := retires.elim there calls.acts marked
      fun step => step.steady (sound.markFinalized o) inside marked
    have onward := retires.extends.trans (World.extends_pushFrame v c f)
    have pushed : (v.pushFrame c f).IsSteady apart :=
      given.goOn rfl (World.extends_pushFrame v c f) (·.pushFrame c f)
    have same : (w'.popFrame c).embedder = w'.embedder := w'.popFrame_embedder c
    have ended := ih ((sound.destroying retires calls.known).note _) (onward.all_has known) inside
      (fun m member => orderly m (same ▸ member)) (pushed.noteCall _ fun _ _ => nofun)
    exact ended.goOn (congrArg _ same) (w'.extends_popFrame c) (·.popFrame c)
  | @hook _ w w' c k k' _ isKnown entrance _ outcome inner _ _ ih =>
    have journal := w'.journal_leaveHook c (w.classes.get k).lowerName k' outcome
    have before : w'.IsOrderly := fun m member =>
      orderly m (journal ▸ List.mem_append_left _ member)
    have left := ih ((sound.insertClass c k isKnown).note _)
      ((w.extends_insertClass c k).all_has known) (List.nil_subset _) before
      ((steady.insertClass sound inside entrance).noteCall _ fun _ _ => nofun)
    rcases outcome with signal | _ | f
    · exact left.noteCall (.answered (.enterClass k' c) (.error signal)) fun _ _ => nofun
    · exact left.noteCall (.answered (.enterClass k' c) (.ok none)) fun _ _ => nofun
    -- only here a class would leave the context again, but no hook has failed
    · have unrefused : (w'.leaveHook c (w.classes.get k).lowerName k' (.ok (some f))).IsUnrefused :=
        fun m member => (orderly m member).1
      exact absurd unrefused (w'.isRefused_leaveHook c _ k' f)
  | @registration _ w w' c m _ _ inner _ ih =>
    exact (ih sound known inside orderly steady).goOn rfl (w'.extends_recordModule c m) fun holds =>
      holds.updateUnnamed c _ (fun _ => rfl) (fun _ => rfl) (fun _ => rfl)
  | @attempt _ w w' c _ _ inner ih =>
    have locked : (w.setImporting (w.context c).scope true).IsSteady apart :=
      steady.goOn rfl (w.extends_setImporting _ true) fun holds => holds
    exact (ih (sound.setImporting _ true) known inside orderly locked).goOn rfl
      (w'.extends_setImporting _ false) fun holds => holds
  | @loading _ w u v w' c source _ _ _ inner event m loaded rest ended ih ih' =>
    have sound := sound.setImporting (w.context c).scope true
    have locked : (w.setImporting (w.context c).scope true).IsSteady apart :=
      steady.goOn rfl (w.extends_setImporting _ true) fun holds => holds
    have after : v.IsOrderly := fun e member => orderly e (ended.journal.subset member)
    have before : u.IsOrderly := fun e member =>
      after.before rest e (List.mem_append_left _ member)
    have answered : (u.note event).IsSteady apart :=
      (ih sound known inside before locked).noteCall event
        (Event.ne_finished (Event.isEnd_of_loaded loaded))
    have stored := ih' ((inner.sound sound).note event) (inner.extends.all_has known) inside after
      answered
    have concluded : w'.IsSteady apart :=
      stored.goOn (congrArg _ ended.embedder) ended.extends (·.of_contexts ended.contexts)
    exact concluded.goOn rfl (w'.extends_setImporting _ false) fun holds => holds
  | @creation w w' s sink housed _ inner ih =>
    have kept : ∀ c ∈ w.contexts.next :: apart, (w.enlist s sink).contexts.has c :=
      List.forall_mem_cons.2 ⟨Pool.has_next_add .., (w.extends_enlist s sink).all_has known⟩
    have made := ih (sound.enlist housed sink) kept (List.cons_subset_cons _ (List.nil_subset _))
      orderly (steady.enlist s sink)
    exact made.later rfl (.refl _) (fun _ _ outside => mt (List.mem_cons_of_mem _) outside)
      fun _ _ _ _ _ holds => holds

/-- Every lookup in a context that has been returned is stable. When it has found something, the
same lookup finds that at every later moment, whatever the embedder does meanwhile and in whatever
callbacks, and changes nothing; and every such lookup that ends later has found it, too. -/
theorem Script.lookups_stable {ρ : Type} (s : Script σ) (depth : Nat) (code : Code σ ρ)
    (files : FileTree) (own : σ)
    (orderly : ∀ m ∈ s.journal depth code files own,
      m.event.isRefusal = false ∧ m.world.HasPlainNames)
    {before after : List (Moment σ)} {made found : Moment σ} {c : ContextId} {a : Action}
    {result : a.Result} (journal : s.journal depth code files own = before ++ found :: after)
    (earlier : made ∈ before) (returned : made.event.returned = some c)
    (event : found.event = .finished (.act c a) (.ok result)) (finds : (a.finds result).isSome) :
    (∀ m ∈ found :: after, ∀ (h : Host (Ledger σ)) (w : Recorded σ), w.unrecorded = m.world →
      a.perform h c w = (.ok result, w)) ∧
    ∀ m ∈ after, ∀ other, m.event = .finished (.act c a) (.ok other) → other = result := by
  have steady := (s.course depth code files own).steady (World.start_sound files own)
    (List.forall_mem_nil _) (List.Subset.refl []) orderly (.start files own)
  obtain ⟨r, finds⟩ := Option.isSome_iff_exists.1 finds
  have resolution : found.event.found = some (c, r) := by
    rw [event]
    exact congrArg (Option.map (c, ·)) finds
  have holds : ∀ m ∈ found :: after, m.world.Resolves c r := by
    intro m member
    obtain ⟨first, rest, split⟩ := List.append_of_mem member
    -- the moment itself counts as well, hence the two cases
    refine steady.kept (before ++ first) m rest (by rw [List.append_assoc, ← split]; exact journal)
      c r ?_
    cases first with
    | nil =>
      cases split
      exact ⟨before, found, [], by rw [List.append_nil], ⟨made, earlier, returned⟩, resolution⟩
    | cons _ first =>
      cases split
      exact ⟨before, found, first ++ [m], by rw [List.append_assoc]; rfl,
        ⟨made, earlier, returned⟩, resolution⟩
  refine ⟨fun m member h w same => ?_, fun m member other ended => ?_⟩
  · have there : w.unrecorded.Resolves c r := same ▸ holds m member
    exact a.perform_of_resolves h finds there
  · have inside : m ∈ s.journal depth code files own :=
      journal ▸ List.mem_append_right _ (List.mem_cons_of_mem _ member)
    exact steady.agrees m inside c a other result r ended finds
      (holds m (List.mem_cons_of_mem _ member))

def oneContext : List Operation :=
  [.newAllocator, .newScope { ids := ⟨0⟩ }, .newSink {}, .newContext ⟨0⟩ ⟨0⟩ {}]

def newPlainClass (name : Bytes) : Operation :=
  .newClass ⟨name, none, true, default, none, .empty, none, none⟩

def Event.isFetch (c : ContextId) (name : Bytes) (result : Option ClassId) : Event → Bool
  | .finished (.act c' (.fetchClass name')) (.ok result') =>
    c' = c ∧ name' = name ∧ result' = result
  | _ => false

theorem Event.eq_of_isFetch {e : Event} {c : ContextId} {name : Bytes} {result : Option ClassId}
    (isFetch : e.isFetch c name result) :
    e = .finished (.act c (.fetchClass name)) (.ok result) := by
  unfold Event.isFetch at isFetch
  split at isFetch
  next =>
    obtain ⟨rfl, rfl, rfl⟩ := of_decide_eq_true isFetch
    rfl
  next => cases isFetch

def redeclaration : List (Moment Unit) :=
  Script.journal ⟨1, fun _ => .done (.error .exhausted)⟩ 1
    (.each () (oneContext ++ [newPlainClass "foo", .act ⟨0⟩ (.registerClass ⟨0⟩),
      .act ⟨0⟩ (.fetchClass "Foo"), newPlainClass "FOO", .act ⟨0⟩ (.registerClass ⟨1⟩),
      .act ⟨0⟩ (.fetchClass "Foo")]))
    (FileTree.make "/") ()

theorem lookups_stable_redeclaration :
    (∀ m ∈ redeclaration, m.event.isRefusal = false ∧ m.world.HasPlainNames) ∧
    (∃ m ∈ redeclaration.drop 7, m.event.isFetch ⟨0⟩ "Foo" (some ⟨0⟩)) ∧
    ∀ m ∈ redeclaration.drop 7, ∀ other,
      m.event = .finished (.act ⟨0⟩ (.fetchClass "Foo")) (.ok other) → other = some ⟨0⟩ := by
  have orderly : ∀ m ∈ redeclaration, m.event.isRefusal = false ∧ m.world.HasPlainNames := by
    decide +kernel
  obtain ⟨made, earlier, returned⟩ :
      ∃ m ∈ redeclaration.take 6, m.event.returned = some (⟨0⟩ : ContextId) := by
    decide +kernel
  obtain ⟨found, fetched, journal⟩ := split_at
    (show redeclaration[6]?.any (·.event.isFetch ⟨0⟩ "Foo" (some ⟨0⟩)) by decide +kernel)
  exact ⟨orderly, by decide +kernel, (Script.lookups_stable _ _ _ _ _ orderly journal earlier
    returned (Event.eq_of_isFetch fetched) (by decide)).2⟩

def seeker : Script Unit where
  patience := 1
  code
    | .autoload _ c _ =>
      .each () [.act c (.registerClass ⟨0⟩), .act c (.fetchClass "\\\\foo")]
    | _ => .done (.error .exhausted)

def seeking : List (Moment Unit) :=
  seeker.journal 2
    (.each () (oneContext ++ [newPlainClass "foo",
      .act ⟨0⟩ (.addLoader ⟨"l", .callback ⟨0⟩⟩ false),
      .act ⟨0⟩ (.fetchClass "\\\\foo"), .act ⟨0⟩ (.fetchClass "\\\\foo")]))
    (FileTree.make "/") ()

theorem lookup_lost_behind_separators :
    (∀ m ∈ seeking, m.event.isRefusal = false ∧ m.world.HasPlainNames) ∧
    ∃ before found after, seeking = before ++ found :: after ∧
      (∃ made ∈ before, made.event.returned = some ⟨0⟩) ∧
      found.event = .finished (.act ⟨0⟩ (.fetchClass "\\\\foo")) (.ok (some ⟨0⟩)) ∧
      ∃ lost ∈ after,
        lost.event = .finished (.act ⟨0⟩ (.fetchClass "\\\\foo")) (.ok none) := by
  obtain ⟨found, fetched, journal⟩ := split_at
    (show seeking[10]?.any (·.event.isFetch ⟨0⟩ "\\\\foo" (some ⟨0⟩)) by decide +kernel)
  obtain ⟨lost, later, missed⟩ : ∃ m ∈ seeking.drop 11, m.event.isFetch ⟨0⟩ "\\\\foo" none := by
    decide +kernel
  exact ⟨by decide +kernel, _, found, _, journal, by decide +kernel, Event.eq_of_isFetch fetched,
    lost, later, Event.eq_of_isFetch missed⟩

end ScriptHost
