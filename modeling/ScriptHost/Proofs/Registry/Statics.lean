import ScriptHost.Proofs.Calls.Balance
import ScriptHost.Proofs.Registry.Stability

set_option autoImplicit false

namespace ScriptHost

variable {σ τ : Type} {making : List ContextId}

namespace Resolution

def isStaticIn (w : World τ) : Resolution → Bool
  | ofClass _ k => (w.classes.get k).isStatic
  | ofFunction _ f => (w.functions.get f).isStatic
  | ofConstant .. => false

def IsKnownIn (w : World τ) : Resolution → Prop
  | ofClass _ k => w.classes.has k
  | ofFunction _ f => w.functions.has f
  | ofConstant _ k => w.constants.has k

def foldedName (w : World τ) : Resolution → Bytes
  | ofClass _ k => (w.classes.get k).lowerName
  | ofFunction _ f => (w.functions.get f).lowerName
  | ofConstant _ k => (w.constants.get k).lowerName

def Rivals : Resolution → Resolution → Prop
  | ofClass key _, ofClass key' _ | ofFunction key _, ofFunction key' _
  | ofConstant key _, ofConstant key' _ => key = key'
  | _, _ => False

variable {r r' : Resolution} {s t : Scope} {w w' : World τ}

theorem IsKnownIn.later (known : r.IsKnownIn w) (onward : w.Extends w') : r.IsKnownIn w' := by
  cases r with
  | ofClass key k => exact (onward.classes k known).1
  | ofFunction key f => exact (onward.functions f known).1
  | ofConstant name k => exact (onward.constants k known).1

theorem IsDeclaredIn.later (declared : r.IsDeclaredIn s) (isStatic : r.isStaticIn w)
    (precedes : s.Precedes t) : r.IsDeclaredIn t := by
  cases r with
  | ofClass key k => exact precedes.classes key k declared
  | ofFunction key f => exact precedes.functions key f declared
  | ofConstant => cases isStatic

theorem IsDeclaredIn.rival (declared : r'.IsDeclaredIn s) (isStatic : r.isStaticIn w)
    (rivals : r.Rivals r') (precedes : s.Precedes t) : r'.IsDeclaredIn t := by
  cases r with
  | ofClass key k =>
    cases r' with
    | ofClass key' k' => exact precedes.classes key' k' declared
    | _ => cases rivals
  | ofFunction key f =>
    cases r' with
    | ofFunction key' f' => exact precedes.functions key' f' declared
    | _ => cases rivals
  | ofConstant => cases isStatic

theorem IsDeclaredIn.key_eq (declared : r.IsDeclaredIn s) (isStatic : r.isStaticIn w)
    (sound : s.declarations.IsSound w) : r.key = r.foldedName w := by
  cases r with
  | ofClass key k => exact (sound.classes key k declared).2.symm
  | ofFunction key f => exact (sound.functions key f declared).2.symm
  | ofConstant => cases isStatic

theorem IsDeclaredIn.unique (declared : r.IsDeclaredIn s) (declared' : r'.IsDeclaredIn s)
    (rivals : r.Rivals r') : r = r' := by
  cases r with
  | ofClass key k =>
    cases r' with
    | ofClass key' k' =>
      cases (show key = key' from rivals)
      cases declared.symm.trans declared'
      rfl
    | _ => cases rivals
  | ofFunction key f =>
    cases r' with
    | ofFunction key' f' =>
      cases (show key = key' from rivals)
      cases declared.symm.trans declared'
      rfl
    | _ => cases rivals
  | ofConstant name k =>
    cases r' with
    | ofConstant name' k' =>
      cases (show name = name' from rivals)
      cases declared.symm.trans declared'
      rfl
    | _ => cases rivals

end Resolution

namespace World

def AgreesOnStatics (w : World τ) : Prop :=
  ∀ c r, w.Resolves c r → r.isStaticIn w → r.IsDeclaredIn (w.scopeOf c)

def KeepsFlags (u v : World τ) : Prop :=
  ∀ c r, u.Resolves c r → r.isStaticIn v = r.isStaticIn u

theorem Resolves.there {w : World τ} {c : ContextId} {r : Resolution} (holds : w.Resolves c r) :
    w.contexts.has c := by
  by_cases known : w.contexts.has c
  · exact known
  · rw [Resolves, context, Pool.get_of_not_has _ known] at holds
    cases r <;> cases holds

theorem Resolves.isKnown {w : World τ} {c : ContextId} {r : Resolution} (holds : w.Resolves c r)
    (sound : w.Sound) : r.IsKnownIn w := by
  have own := (sound.contexts c).declarations
  cases r with
  | ofClass key k => exact (own.classes key k holds).1
  | ofFunction key f => exact (own.functions key f holds).1
  | ofConstant name k => exact (own.find_constant holds).1

end World

def Moment.Obtains (m : Moment σ) (c : ContextId) (r : Resolution) : Prop :=
  m.world.Resolves c r ∨ m.event.found = some (c, r)

def Operation.isDeclaration : Operation → Bool
  | declareClass .. | declareFunction .. => true
  | _ => false

def World.IsQuiet (w : Recorded σ) : Prop :=
  ∀ o, w.embedder.running.head? = some o → o.isDeclaration = false

theorem World.IsQuiet.later {w w' : Recorded σ} (quiet : w.IsQuiet) (course : Course making w w') :
    w'.IsQuiet := by
  unfold IsQuiet
  rwa [course.running]

structure World.IsConcordant (w : Recorded σ) : Prop where
  now : w.AgreesOnStatics
  past : ∀ m ∈ w.embedder.journal, ∀ c r, m.Obtains c r → r.isStaticIn m.world →
    r.IsDeclaredIn (m.world.scopeOf c)
  kept : ∀ m ∈ w.embedder.journal, ∀ c r, m.world.Resolves c r →
    r.IsKnownIn w ∧ r.isStaticIn w = r.isStaticIn m.world
  onward : ∀ m ∈ w.embedder.journal, m.world.Extends w.unrecorded

namespace World.IsConcordant

variable {w w' : Recorded σ}

theorem start (files : FileTree) (own : σ) : (World.start files own).IsConcordant where
  now _ _ holds := nomatch holds.there
  past _ member := nomatch member
  kept _ member := nomatch member
  onward _ member := nomatch member

theorem later (concordant : w.IsConcordant) (sound : w.Sound) (onward : w.Extends w')
    (journal : w'.embedder.journal = w.embedder.journal)
    (flags : ∀ r : Resolution, r.IsKnownIn w → r.isStaticIn w' = r.isStaticIn w)
    (origin : ∀ c r, w'.Resolves c r → r.isStaticIn w' →
      w.Resolves c r ∨ r.IsDeclaredIn (w'.scopeOf c)) : w'.IsConcordant where
  now c r holds isStatic := by
    rcases origin c r holds isStatic with before | declared
    · have same := flags r (before.isKnown sound)
      exact (concordant.now c r before (same ▸ isStatic)).later isStatic
        (onward.scopeOf before.there)
    · exact declared
  past := by rw [journal]; exact concordant.past
  kept m member c r holds := by
    obtain ⟨known, same⟩ := concordant.kept m (journal ▸ member) c r holds
    exact ⟨known.later onward, (flags r known).trans same⟩
  onward m member := (concordant.onward m (journal ▸ member)).trans onward.unrecorded

theorem of_same (concordant : w.IsConcordant) (sound : w.Sound) (onward : w.Extends w')
    (journal : w'.embedder.journal = w.embedder.journal) (classes : w'.classes = w.classes)
    (functions : w'.functions = w.functions) (contexts : w'.contexts = w.contexts) :
    w'.IsConcordant := by
  refine concordant.later sound onward journal (fun r _ => ?_)
    fun c r holds _ => .inl (holds.of_contexts contexts.symm)
  cases r with
  | ofClass key k => exact congrArg (fun p => (p.get k).isStatic) classes
  | ofFunction key f => exact congrArg (fun p => (p.get f).isStatic) functions
  | ofConstant => rfl

theorem updateContext (concordant : w.IsConcordant) (sound : w.Sound) (c : ContextId)
    (f : Context → Context) (onward : w.Extends (w.updateContext c f))
    (origin : w.contexts.has c → ∀ r : Resolution, r.HoldsIn (f (w.context c)).holdings →
      r.isStaticIn w → w.Resolves c r ∨ r.IsDeclaredIn (w.scopeOf c)) :
    (w.updateContext c f).IsConcordant := by
  refine concordant.later sound onward rfl (fun _ _ => rfl) fun d r holds isStatic => ?_
  have there : w.contexts.has d := (w.contexts.has_modify c d f).symm.trans holds.there
  unfold World.Resolves at holds
  rw [World.context_updateContext] at holds
  split at holds
  next here =>
    obtain ⟨rfl, known⟩ := here
    exact (origin known r holds isStatic).imp_right (·.later isStatic (onward.scopeOf there))
  next => exact .inl holds

theorem updateUnnamed (concordant : w.IsConcordant) (sound : w.Sound) (c : ContextId)
    (f : Context → Context) (onward : w.Extends (w.updateContext c f))
    (classes : ∀ x, (f x).classes = x.classes) (functions : ∀ x, (f x).functions = x.functions) :
    (w.updateContext c f).IsConcordant := by
  refine concordant.updateContext sound c f onward fun _ r holds isStatic => .inl ?_
  cases r with
  | ofClass => simpa [World.Resolves, Resolution.HoldsIn, Context.holdings, classes] using holds
  | ofFunction =>
    simpa [World.Resolves, Resolution.HoldsIn, Context.holdings, functions] using holds
  | ofConstant => cases isStatic

theorem note (concordant : w.IsConcordant) (sound : w.Sound) (event : Event)
    (found : ∀ c r, event.found = some (c, r) → r.isStaticIn w → r.IsDeclaredIn (w.scopeOf c)) :
    (w.note event).IsConcordant where
  now := concordant.now
  past m member c r obtains isStatic := by
    rcases List.mem_append.1 member with earlier | last
    · exact concordant.past m earlier c r obtains isStatic
    · rw [List.mem_singleton.1 last] at obtains isStatic ⊢
      rcases obtains with holds | finds
      · exact concordant.now c r holds isStatic
      · exact found c r finds isStatic
  kept m member c r holds := by
    rcases List.mem_append.1 member with earlier | last
    · exact concordant.kept m earlier c r holds
    · rw [List.mem_singleton.1 last] at holds ⊢
      have now : w.Resolves c r := holds
      exact ⟨now.isKnown sound, rfl⟩
  onward m member := by
    rcases List.mem_append.1 member with earlier | last
    · exact concordant.onward m earlier
    · rw [List.mem_singleton.1 last]
      exact .refl _

theorem noteCall (concordant : w.IsConcordant) (sound : w.Sound) (event : Event)
    (unfinished : ∀ o outcome, event ≠ .finished o outcome) : (w.note event).IsConcordant := by
  refine concordant.note sound event fun c r found => ?_
  cases event with
  | finished o outcome => exact absurd rfl (unfinished o outcome)
  | _ => cases found

theorem pushFrame (concordant : w.IsConcordant) (sound : w.Sound) (c : ContextId) (f : Frame) :
    (w.pushFrame c f).IsConcordant :=
  concordant.updateUnnamed sound c _ (w.extends_pushFrame c f) (fun _ => rfl) fun _ => rfl

theorem popFrame (concordant : w.IsConcordant) (sound : w.Sound) (c : ContextId) :
    (w.popFrame c).IsConcordant := by
  have onward := w.extends_popFrame c
  unfold World.popFrame at *
  split
  next => exact concordant
  next top calls found =>
    rw [found] at onward
    exact concordant.updateUnnamed sound c _ onward (fun _ => rfl) fun _ => rfl

theorem setImporting (concordant : w.IsConcordant) (sound : w.Sound) (s : ScopeId)
    (isImporting : Bool) : (w.setImporting s isImporting).IsConcordant :=
  concordant.of_same sound (w.extends_setImporting s isImporting) rfl rfl rfl rfl

theorem conclude (concordant : w.IsConcordant) (sound : w.Sound) {s : ScopeId} {source : Source}
    {m : ModuleId} (ended : w.Concluded s source m w') : w'.IsConcordant := by
  refine concordant.of_same sound ended.extends (congrArg _ ended.embedder) ?_ ?_ ended.contexts
  all_goals
    rcases ended with rfl | ⟨rfl, -⟩
    · obtain ⟨_, _, _, same⟩ := w.conclude_same s source m
      rw [same]
    · rfl

theorem enlist (concordant : w.IsConcordant) (sound : w.Sound) (s : ScopeId) (sink : SinkId) :
    (w.enlist s sink).IsConcordant := by
  refine concordant.later sound (w.extends_enlist s sink) rfl (fun _ _ => rfl)
    fun c r holds isStatic => ?_
  by_cases new : c = w.contexts.next
  · have own : (w.enlist s sink).context c = w.newcomer s sink := by
      subst new
      exact Pool.get_add_next w.contexts (w.newcomer s sink)
    refine .inr ?_
    unfold World.Resolves at holds
    unfold World.scopeOf
    rw [own] at holds ⊢
    cases r with
    | ofClass => cases holds
    | ofFunction => exact holds
    | ofConstant => cases isStatic
  · have known := Pool.has_of_has_add holds.there new
    exact .inl (by rwa [World.Resolves, ← w.context_enlist s sink known])

theorem entrance (concordant : w.IsConcordant) (sound : w.Sound) {c : ContextId}
    (there : w.contexts.has c) {k : ClassId} (entrance : w.Entrance making c k)
    (isStatic : (w.classes.get k).isStatic) :
    (w.scopeOf c).classes.get? (w.classes.get k).lowerName = some k := by
  cases entrance with
  | fetched lower _ shared =>
    obtain ⟨_, rfl⟩ := (sound.scopes _).classes lower k shared
    exact shared
  | declared _ shared => exact shared isStatic (sound.housed c there)
  | takenOver _ parent _ _ held shared =>
    unfold World.scopeOf
    rw [shared]
    rcases held with ⟨key, found⟩ | ⟨m, member, key, found⟩
    · obtain ⟨_, rfl⟩ := (sound.contexts parent).declarations.classes key k found
      exact concordant.now parent (.ofClass _ k) found isStatic
    · have declared : (Resolution.ofClass key k).IsDeclaredIn (w.scopeOf parent) := by
        have onward := concordant.onward m member
        have holds : m.world.Resolves parent (.ofClass key k) := found
        have before : (Resolution.ofClass key k).isStaticIn m.world :=
          (concordant.kept m member parent _ holds).2 ▸ isStatic
        exact (concordant.past m member parent _ (.inl holds) before).later before
          (onward.scopeOf holds.there)
      obtain ⟨_, rfl⟩ := (sound.scopes _).classes key k declared
      exact declared

theorem insertClass (concordant : w.IsConcordant) (sound : w.Sound) {c : ContextId} {k : ClassId}
    (entrance : w.Entrance making c k) : (w.insertClass c k).IsConcordant := by
  refine concordant.updateContext sound c _ (w.extends_insertClass c k)
    fun there r holds isStatic => ?_
  cases r with
  | ofClass key b =>
    have found : ((w.context c).classes.insert (w.classes.get k).lowerName k).get? key = some b :=
      holds
    rw [Table.get?_insert] at found
    split at found
    next same =>
      cases found
      exact .inr (same ▸ concordant.entrance sound there entrance isStatic)
    next => exact .inl found
  | ofFunction => exact .inl holds
  | ofConstant => cases isStatic

theorem leaveHook (concordant : w.IsConcordant) (sound : w.Sound) (c : ContextId) (lower : Bytes)
    (hook : Callback) (outcome : Except Signal (Option Failure)) :
    (w.leaveHook c lower hook outcome).IsConcordant := by
  have noted := concordant.noteCall sound (.answered (.enterClass hook c) outcome)
    fun _ _ same => nomatch same
  unfold World.leaveHook
  split
  next =>
    refine noted.updateContext (sound.note _) c _ (.updateContext _ c _
      (.of_same rfl rfl rfl rfl rfl rfl)) fun _ r holds isStatic => .inl ?_
    cases r with
    | ofClass key k =>
      have found : ((w.context c).classes.erase lower).get? key = some k := holds
      rw [Table.get?_erase] at found
      split at found
      next => cases found
      next => exact found
    | ofFunction => exact holds
    | ofConstant => cases isStatic
  next => exact noted

theorem insertFunction (concordant : w.IsConcordant) (sound : w.Sound) (c : ContextId)
    (key : Bytes) (f : FunctionId)
    (shared : w.contexts.has c → (w.functions.get f).isStatic →
      (w.scopeOf c).functions.get? key = some f) :
    (w.updateContext c fun x =>
      { x with functions := x.functions.insert key f }).IsConcordant := by
  refine concordant.updateContext sound c _ (.updateContext w c _
    (.of_same rfl rfl rfl rfl rfl rfl)) fun there r holds isStatic => ?_
  cases r with
  | ofFunction name b =>
    have found : ((w.context c).functions.insert key f).get? name = some b := holds
    rw [Table.get?_insert] at found
    split at found
    next same =>
      cases found
      exact .inr (same ▸ shared there isStatic)
    next => exact .inl found
  | ofClass => exact .inl holds
  | ofConstant => cases isStatic

end World.IsConcordant

theorem Change.keepsFlags {w w' : Recorded σ} (step : Change making w w') (quiet : w.IsQuiet)
    {r : Resolution} (known : r.IsKnownIn w) : r.isStaticIn w' = r.isStaticIn w := by
  cases step with
  | shareClass k s asked => exact nomatch quiet _ asked
  | shareFunction f s asked => exact nomatch quiet _ asked
  | addClass k =>
    cases r with
    | ofClass key b => exact congrArg Class.isStatic (Pool.get_add_of_has w.classes k known)
    | _ => rfl
  | addMethod k m =>
    cases r with
    | ofClass key b => exact w.classes.modify_keeps k b _ Class.isStatic fun _ => rfl
    | _ => rfl
  | addFunction f =>
    cases r with
    | ofFunction key b => exact congrArg Function.isStatic (Pool.get_add_of_has w.functions f known)
    | _ => rfl
  | popCall c =>
    unfold World.popFrame
    split <;> rfl
  | _ => rfl

theorem Change.concordant {w w' : Recorded σ} (step : Change making w w') (sound : w.Sound)
    (quiet : w.IsQuiet) (concordant : w.IsConcordant) : w'.IsConcordant := by
  have onward := step.extends
  have flags := fun (r : Resolution) (known : r.IsKnownIn w) => step.keepsFlags quiet known
  cases step with
  | surroundings | addClass | addMethod | shareClass | addFunction | shareFunction | addConstant
  | addModule | addObject | markFinalized | addScope | setDefaults | declareClass
  | declareFunction | declareConstant | setOwn =>
    exact concordant.later sound onward rfl flags fun _ _ holds _ => .inl holds
  | note event isPlain =>
    exact concordant.noteCall sound event (Event.ne_finished (Event.isEnd_of_isPlain isPlain))
  | adjust c f adjusts =>
    refine concordant.updateContext sound c f onward fun _ r holds _ => .inl ?_
    rwa [(adjusts _).holdings] at holds
  | pushCall c f => exact concordant.pushFrame sound c f
  | popCall c => exact concordant.popFrame sound c
  | close c =>
    have shut := concordant.updateUnnamed sound c _ (w.extends_shut c) (fun _ => rfl) fun _ => rfl
    exact shut.of_same (sound.shut c) (.of_same rfl rfl rfl rfl rfl rfl rfl) rfl rfl rfl rfl
  | assign c | remember c | reclaim c | drain c | track c | cacheConstant c | insertConstant c =>
    exact concordant.updateUnnamed sound c _ onward (fun _ => rfl) fun _ => rfl
  | loadClass c k known entrance => exact concordant.insertClass sound entrance
  | cacheFunction c lower f absent shared =>
    exact concordant.insertFunction sound c lower f fun _ _ => shared
  | insertFunction c f known absent shared =>
    exact concordant.insertFunction sound c _ f fun there isStatic =>
      shared isStatic (sound.housed c there)
  | mergeFunctions c =>
    refine concordant.updateContext sound c _ onward fun _ r holds isStatic => ?_
    cases r with
    | ofFunction key f =>
      have found : ((w.scopeOf c).functions.overlay (w.context c).functions).get? key = some f :=
        holds
      rw [Table.get?_overlay, Option.or_eq_some_iff] at found
      exact found.imp_right And.right
    | ofClass => exact .inl holds
    | ofConstant => cases isStatic
  | inherit c p _ shared =>
    refine concordant.updateContext sound c _ onward fun _ r holds isStatic => ?_
    cases r with
    | ofFunction key f =>
      have found : ((w.context c).functions.overlay (w.context p).functions).get? key = some f :=
        holds
      rw [Table.get?_overlay, Option.or_eq_some_iff] at found
      -- a function of the parent is static by what the parent agrees on, as both have one scope
      rcases found with above | ⟨_, below⟩
      · refine .inr ?_
        rw [World.scopeOf, shared]
        exact concordant.now p (.ofFunction key f) above isStatic
      · exact .inl below
    | ofClass => exact .inl holds
    | ofConstant => cases isStatic

theorem Action.supplied_of_delivers {w w' : Recorded σ} {c : ContextId} {a : Action}
    {result : a.Result} {r : Resolution} (finds : a.finds result = some r)
    (delivers : Operation.Delivers w (.act c a) (.ok result) w') :
    w'.Resolves c r ∨ r.IsDeclaredIn (w'.scopeOf c) := by
  cases Action.Finds.of_finds finds with
  | findClass name k => exact delivers.supplied k rfl
  | fetchClass name k single => exact (delivers single).supplied k rfl
  | fetchFunction name f => exact delivers.supplied f rfl
  | findConstant name k => exact delivers.supplied k rfl

namespace World.IsConcordant

variable {w w' : Recorded σ}

theorem finish (concordant : w'.IsConcordant) (sound : w'.Sound) (running : List Operation)
    {o : Operation} {outcome : Except Signal o.Result} (delivers : o.Delivers w outcome w') :
    (w'.finish running o outcome).IsConcordant := by
  let u : Recorded σ := { w' with embedder := { w'.embedder with running } }
  have onward : w'.Extends u := .of_same rfl rfl rfl rfl rfl rfl rfl
  refine note (w := u) (concordant.of_same sound onward rfl rfl rfl rfl)
    (sound.extend onward rfl rfl rfl) (.finished o outcome) fun c r found isStatic => ?_
  unfold Event.found at found
  split at found
  next a result same =>
    cases same
    obtain ⟨r', finds, ⟨⟩⟩ := Option.map_eq_some_iff.1 found
    exact (Action.supplied_of_delivers finds delivers).elim
      (fun holds => concordant.now c r holds isStatic) id
  next => cases found

theorem declare (concordant : w.IsConcordant) (sampled : w.IsSampled) (onward : w.Extends w')
    (contexts : w'.contexts = w.contexts) (journal : w'.embedder.journal = w.embedder.journal)
    (kept : ∀ m ∈ w.embedder.journal, m.world.KeepsFlags w'.unrecorded) : w'.IsConcordant where
  now c r holds isStatic := by
    have before : w.Resolves c r := holds.of_contexts contexts.symm
    rcases sampled.on_record with empty | ⟨m, member, own, same⟩
    · exact absurd before.there (empty c)
    · have recorded : w.unrecorded.Resolves c r := before
      rw [same] at recorded
      have flag : r.isStaticIn w.unrecorded = r.isStaticIn m.world := by rw [same]; rfl
      have marked : r.isStaticIn w := flag.trans ((kept m member c r recorded).symm.trans isStatic)
      exact (concordant.now c r before marked).later marked (onward.scopeOf before.there)
  past := by rw [journal]; exact concordant.past
  kept m member c r holds := by
    rw [journal] at member
    exact ⟨(concordant.kept m member c r holds).1.later onward, kept m member c r holds⟩
  onward m member := (concordant.onward m (journal ▸ member)).trans onward.unrecorded

end World.IsConcordant

theorem Course.concordant {w w' : Recorded σ} (course : Course making w w') (sound : w.Sound)
    (quiet : w.IsQuiet)
    (kept : w'.embedder.journal.Pairwise fun m m' => m.world.KeepsFlags m'.world)
    (concordant : w.IsConcordant) : w'.IsConcordant := by
  induction course with
  | still => exact concordant
  | change step => exact step.concordant sound quiet concordant
  | trans first rest ih ih' =>
    exact ih' (first.sound sound) (quiet.later first) kept
      (ih sound quiet (kept.sublist rest.journal.sublist) concordant)
  | @operation _ w w' o outcome inner delivers performs ih =>
    have begun : (w.begin o).IsConcordant :=
      concordant.of_same sound (w.extends_begin o) rfl rfl rfl rfl
    obtain ⟨before, -, last⟩ := List.pairwise_append.1 kept
    have ended : w'.IsConcordant := by
      by_cases declares : o.isDeclaration
      · have ⟨contexts, journal⟩ :
            w'.contexts = w.contexts ∧ w'.embedder.journal = w.embedder.journal := by
          cases o with
          | declareClass | declareFunction => exact delivers
          | _ => cases declares
        exact concordant.declare performs.sampled ((w.extends_begin o).trans inner.extends) contexts
          journal
          fun m member => last m (journal.symm ▸ member) _ List.mem_cons_self
      · refine ih (sound.begin o) (fun _ same => ?_) before begun
        exact Option.some.inj same ▸ Bool.eq_false_iff.2 declares
    exact ended.finish (inner.sound (sound.begin o)) w.embedder.running delivers
  | @frame _ w w' c f inner calls ih =>
    have pushed := sound.pushFrame c calls.known
    have ended := ih pushed quiet (by rwa [World.popFrame_embedder] at kept)
      (concordant.pushFrame sound c f)
    exact ended.popFrame (inner.sound pushed) c
  | @autoload _ w w' c key _ _ inner _ ih =>
    have entered := concordant.updateUnnamed sound c _
      (w.extends_updateLoaders c (·.enter key)) (fun _ => rfl) fun _ => rfl
    exact (ih (sound.updateLoaders c _) quiet kept entered).updateUnnamed
      (inner.sound (sound.updateLoaders c _)) c _ (w'.extends_updateLoaders c (·.leave key))
      (fun _ => rfl) fun _ => rfl
  | @destructor _ w v w' c o k f _ there _ retires inner calls ih =>
    have marked := concordant.of_same sound (.markFinalized w o) rfl rfl rfl rfl
    have given : v.IsConcordant := retires.elim there calls.acts marked
      fun step => step.concordant (sound.markFinalized o) quiet marked
    have pushed := sound.destroying retires calls.known
    have quiet' : v.IsQuiet := retires.elim there calls.acts quiet
      fun step => World.IsQuiet.later (w := w.markFinalized o) quiet (.change step)
    have called := (given.pushFrame (sound.retire retires) c f).noteCall pushed
      (.called (.destroyObject k c o)) fun _ _ same => nomatch same
    have ended := ih (pushed.note _) quiet' (by rwa [World.popFrame_embedder] at kept) called
    exact ended.popFrame (inner.sound (pushed.note _)) c
  | @hook _ w w' c k k' _ known entrance _ outcome inner _ _ ih =>
    have inserted := sound.insertClass c k known
    have called := (concordant.insertClass sound entrance).noteCall inserted
      (.called (.enterClass k' c)) fun _ _ same => nomatch same
    have ended := ih (inserted.note _) quiet
      (kept.sublist (w'.prefix_leaveHook c _ k' outcome).sublist) called
    exact ended.leaveHook (inner.sound (inserted.note _)) c _ k' outcome
  | @registration _ w w' c m _ _ inner _ ih =>
    exact (ih sound quiet kept concordant).updateUnnamed (inner.sound sound) c _
      (w'.extends_recordModule c m) (fun _ => rfl) fun _ => rfl
  | @attempt _ w w' c _ _ inner ih =>
    have locked := sound.setImporting (w.context c).scope true
    exact (ih locked quiet kept (concordant.setImporting sound _ true)).setImporting
      (inner.sound locked) _ false
  | @loading _ w u v w' c source _ _ _ inner event m loaded rest ended ih ih' =>
    have locked := sound.setImporting (w.context c).scope true
    have after : v.embedder.journal.Pairwise fun m m' => m.world.KeepsFlags m'.world := by
      rwa [← ended.embedder]
    have before := after.sublist ((List.prefix_append _ _).trans rest.journal).sublist
    have answered := (ih locked quiet before (concordant.setImporting sound _ true)).noteCall
      (inner.sound locked) event (Event.ne_finished (Event.isEnd_of_loaded loaded))
    have noted := (inner.sound locked).note event
    have waiting : u.IsQuiet := World.IsQuiet.later (w := w.setImporting _ true) quiet inner
    have kept := ih' noted waiting after answered
    have sound' := rest.sound noted
    refine (kept.conclude sound' ended).setImporting ?_ _ false
    rcases ended with rfl | ⟨rfl, -⟩
    · exact sound'.conclude _ source m
    · exact sound'
  | creation s sink known _ _ ih =>
    exact ih (sound.enlist known sink) quiet kept (concordant.enlist sound s sink)

/-- All contexts of a scope agree on what is static, if nothing that a context holds changes its
mark. Whatever static class or function a context holds under a name, or a lookup finds, is the one
that the scope declares under that name, which is its own name in lower case. No context of the scope
ever obtains another static one under the name, and the scope never declares another one. -/
theorem Script.statics_agree {ρ : Type} (s : Script σ) (depth : Nat) (code : Code σ ρ)
    (files : FileTree) (own : σ)
    (kept : (s.journal depth code files own).Pairwise fun m m' => m.world.KeepsFlags m'.world) :
    ∀ m ∈ s.journal depth code files own, ∀ c r, m.Obtains c r → r.isStaticIn m.world →
      r.IsDeclaredIn (m.world.scopeOf c) ∧ r.key = r.foldedName m.world ∧
      ∀ m' ∈ s.journal depth code files own, ∀ r', r.Rivals r' →
        (∀ c', (m'.world.context c').scope = (m.world.context c).scope → m'.Obtains c' r' →
          r'.isStaticIn m'.world → r = r') ∧
        (r'.IsDeclaredIn (m'.world.scopes.get (m.world.context c).scope) → r = r') := by
  have begun : (World.start files own).IsConcordant := .start files own
  have concordant := (s.course depth code files own).concordant (World.start_sound files own)
    (fun _ running => by cases running) kept begun
  intro m member c r obtains isStatic
  have declared := concordant.past m member c r obtains isStatic
  refine ⟨declared, declared.key_eq isStatic ((Script.regular_of_journal member).sound.scopes _),
    fun m' member' r' rivals => ?_⟩
  have atLast := declared.later isStatic ((concordant.onward m member).precedes _)
  have published : r'.IsDeclaredIn (m'.world.scopes.get (m.world.context c).scope) → r = r' :=
    fun declared' => atLast.unique
      (declared'.rival isStatic rivals ((concordant.onward m' member').precedes _)) rivals
  refine ⟨fun c' same obtains' isStatic' => published ?_, published⟩
  rw [← same]
  exact concordant.past m' member' c' r' obtains' isStatic'

def World.keepsMarks (u v : World τ) : Bool :=
  (u.classes.entries.toList.map Class.isStatic).isPrefixOf
      (v.classes.entries.toList.map Class.isStatic) &&
    (u.functions.entries.toList.map Function.isStatic).isPrefixOf
      (v.functions.entries.toList.map Function.isStatic)

theorem World.keepsFlags_of_keepsMarks {u v : World τ} (sound : u.Sound) (kept : u.keepsMarks v) :
    u.KeepsFlags v := by
  obtain ⟨classes, functions⟩ := Bool.and_eq_true_iff.1 kept
  intro c r holds
  have known := holds.isKnown sound
  cases r with
  | ofClass key k => exact Pool.get_of_isPrefix (List.isPrefixOf_iff_prefix.1 classes) known
  | ofFunction key f => exact Pool.get_of_isPrefix (List.isPrefixOf_iff_prefix.1 functions) known
  | ofConstant => rfl

theorem Script.keepsFlags_of_keepsMarks {ρ : Type} {s : Script σ} {depth : Nat} {code : Code σ ρ}
    {files : FileTree} {own : σ}
    (kept : (s.journal depth code files own).Pairwise fun m m' => m.world.keepsMarks m'.world) :
    (s.journal depth code files own).Pairwise fun m m' => m.world.KeepsFlags m'.world :=
  kept.imp_of_mem fun member _ kept =>
    World.keepsFlags_of_keepsMarks (Script.regular_of_journal member).sound kept

def competition : List (Moment Unit) :=
  Script.journal ⟨1, fun _ => .done (.error .exhausted)⟩ 1
    (.each () (oneContext ++ [.newContext ⟨0⟩ ⟨0⟩ {}, newPlainClass "foo", newPlainClass "FOO",
      .act ⟨0⟩ (.registerClass ⟨0⟩), .act ⟨1⟩ (.registerClass ⟨1⟩),
      .act ⟨1⟩ (.fetchClass "Foo")]))
    (FileTree.make "/") ()

theorem statics_agree_competing :
    (competition.Pairwise fun m m' => m.world.KeepsFlags m'.world) ∧
    (∃ m ∈ competition, m.event.isFetch ⟨1⟩ "Foo" (some ⟨0⟩)) ∧
    ∀ m ∈ competition, ∀ k, (m.world.context ⟨1⟩).scope = ⟨0⟩ →
      m.Obtains ⟨1⟩ (.ofClass "foo" k) → (m.world.classes.get k).isStatic → k = ⟨0⟩ := by
  have kept : competition.Pairwise fun m m' => m.world.KeepsFlags m'.world :=
    Script.keepsFlags_of_keepsMarks (by decide +kernel)
  obtain ⟨m, member, holds, isStatic, scope⟩ : ∃ m ∈ competition,
      (m.world.context ⟨0⟩).classes.get? "foo" = some ⟨0⟩ ∧ (m.world.classes.get ⟨0⟩).isStatic ∧
      (m.world.context ⟨0⟩).scope = ⟨0⟩ := by
    decide +kernel
  refine ⟨kept, by decide +kernel, fun m' member' k same obtains marked => ?_⟩
  have agreed := Script.statics_agree _ _ _ _ _ kept m member ⟨0⟩ (.ofClass "foo" ⟨0⟩) (.inl holds)
    isStatic
  cases (agreed.2.2 m' member' (.ofClass "foo" k) rfl).1 ⟨1⟩ (same.trans scope.symm) obtains marked
  rfl

def provider : Script Unit where
  patience := 1
  code
    | .autoload _ c _ => .each () [.act c (.registerClass ⟨0⟩)]
    | _ => .done (.error .exhausted)

def clash : List (Moment Unit) :=
  provider.journal 2
    (.each () (oneContext ++ [.newContext ⟨0⟩ ⟨0⟩ {}, newPlainClass "foo", newPlainClass "\\foo",
      .act ⟨0⟩ (.addLoader ⟨"l", .callback ⟨0⟩⟩ false), .act ⟨0⟩ (.fetchClass "\\\\foo"),
      .declareClass ⟨0⟩ ⟨1⟩, .act ⟨1⟩ (.fetchClass "\\\\foo")]))
    (FileTree.make "/") ()

theorem statics_clash_behind_separators :
    (clash.Pairwise fun m m' => m.world.KeepsFlags m'.world) ∧
    ∃ m ∈ clash, ∃ m' ∈ clash,
      m.event = .finished (.act ⟨0⟩ (.fetchClass "\\\\foo")) (.ok (some ⟨0⟩)) ∧
      m'.event = .finished (.act ⟨1⟩ (.fetchClass "\\\\foo")) (.ok (some ⟨1⟩)) ∧
      (m.world.context ⟨0⟩).scope = (m'.world.context ⟨1⟩).scope ∧
      (m.world.classes.get ⟨0⟩).isStatic ∧ (m'.world.classes.get ⟨1⟩).isStatic := by
  obtain ⟨m, member, m', member', fetched, fetched', rest⟩ : ∃ m ∈ clash, ∃ m' ∈ clash,
      m.event.isFetch ⟨0⟩ "\\\\foo" (some ⟨0⟩) ∧ m'.event.isFetch ⟨1⟩ "\\\\foo" (some ⟨1⟩) ∧
      (m.world.context ⟨0⟩).scope = (m'.world.context ⟨1⟩).scope ∧
      (m.world.classes.get ⟨0⟩).isStatic ∧ (m'.world.classes.get ⟨1⟩).isStatic := by
    decide +kernel
  exact ⟨Script.keepsFlags_of_keepsMarks (by decide +kernel), m, member, m', member',
    Event.eq_of_isFetch fetched, Event.eq_of_isFetch fetched', rest⟩

end ScriptHost
