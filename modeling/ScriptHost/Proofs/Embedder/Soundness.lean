import ScriptHost.Proofs.Embedder.Extension

set_option autoImplicit false

namespace ScriptHost

structure Declarations.IsSound {τ : Type} (d : Declarations) (w : World τ) : Prop where
  classes : ∀ key k, d.classes.get? key = some k →
    w.classes.has k ∧ (w.classes.get k).lowerName = key
  functions : ∀ key f, d.functions.get? key = some f →
    w.functions.has f ∧ (w.functions.get f).lowerName = key
  exact : ∀ key k, d.constants.exact.get? key = some k →
    w.constants.has k ∧ (w.constants.get k).isCaseSensitive ∧ (w.constants.get k).name = key
  folded : ∀ key k, d.constants.folded.get? key = some k →
    w.constants.has k ∧ (w.constants.get k).isCaseSensitive = false ∧
      (w.constants.get k).lowerName = key

structure CallStack.IsSound {τ : Type} (s : CallStack Activation) (next : Nat) (w : World τ) :
    Prop where
  below : ∀ a ∈ s.toList, a.serial < next
  unique : ∀ a ∈ s.toList, ∀ b ∈ s.toList, a.serial = b.serial → a.outline = b.outline
  known : ∀ a ∈ s.toList, a.frame.IsKnown w

structure Context.IsSound {τ : Type} (x : Context) (w : World τ) : Prop where
  declarations : x.declarations.IsSound w
  calls : x.calls.IsSound x.nextSerial w
  tracker : x.tracker.Sound
  tracked : ∀ o ∈ x.tracker.objects, w.objects.has o

structure World.Sound {τ : Type} (w : World τ) : Prop where
  modules : ∀ m, (w.modules.get m).isGrounded w
  scopes : ∀ s, (w.scopes.get s).declarations.IsSound w
  contexts : ∀ c, (w.context c).IsSound w
  housed : ∀ c, w.contexts.has c → w.scopes.has (w.context c).scope

theorem Module.isGrounded_iff {τ : Type} (m : Module) (w : World τ) :
    m.isGrounded w ↔ (∀ k ∈ m.classes, w.classes.has k) ∧ (∀ f ∈ m.functions, w.functions.has f) ∧
      ∀ k ∈ m.constants, w.constants.has k := by
  simp [Module.isGrounded, and_assoc]

theorem Module.isGrounded_extend {τ : Type} {m : Module} {w w' : World τ} (later : w.Extends w')
    (grounded : m.isGrounded w) : m.isGrounded w' := by
  rw [isGrounded_iff] at *
  exact ⟨fun k member => (later.classes k (grounded.1 k member)).1,
    fun f member => (later.functions f (grounded.2.1 f member)).1,
    fun k member => (later.constants k (grounded.2.2 k member)).1⟩

namespace Declarations.IsSound

variable {τ : Type} {w w' : World τ} {d : Declarations}

theorem extend (later : w.Extends w') (sound : d.IsSound w) : d.IsSound w' where
  classes key k found := by
    obtain ⟨known, own⟩ := sound.classes key k found
    obtain ⟨known', name, _⟩ := later.classes k known
    exact ⟨known', by rw [Class.lowerName, name]; exact own⟩
  functions key f found := by
    obtain ⟨known, own⟩ := sound.functions key f found
    obtain ⟨known', name⟩ := later.functions f known
    exact ⟨known', by rw [Function.lowerName, name]; exact own⟩
  exact key k found := by
    obtain ⟨known, own⟩ := sound.exact key k found
    obtain ⟨known', same⟩ := later.constants k known
    exact ⟨known', by rw [same]; exact own⟩
  folded key k found := by
    obtain ⟨known, own⟩ := sound.folded key k found
    obtain ⟨known', same⟩ := later.constants k known
    exact ⟨known', by rw [same]; exact own⟩

theorem bare (s : Scope) (w : World τ) : s.bare.declarations.IsSound w := by
  constructor <;> intro key k found <;> cases found

theorem insertClass (sound : d.IsSound w) (k : ClassId) (known : w.classes.has k) :
    IsSound { d with classes := d.classes.insert (w.classes.get k).lowerName k } w :=
  { sound with
    classes := fun key b found => by
      rw [Table.get?_insert] at found
      split at found
      next same =>
        cases found
        exact ⟨known, same.symm⟩
      next => exact sound.classes key b found }

theorem eraseClass (sound : d.IsSound w) (lower : Bytes) :
    IsSound { d with classes := d.classes.erase lower } w :=
  { sound with
    classes := fun key b found => by
      rw [Table.get?_erase] at found
      split at found
      next => cases found
      next => exact sound.classes key b found }

theorem enterClass (sound : d.IsSound w) (k : ClassId) (known : w.classes.has k) :
    IsSound { d with classes := (Scope.enter d.classes (w.classes.get k).lowerName k).2 } w := by
  unfold Scope.enter
  split
  next => exact sound
  next => exact sound.insertClass k known

theorem insertFunction (sound : d.IsSound w) (f : FunctionId) (known : w.functions.has f) :
    IsSound { d with functions := d.functions.insert (w.functions.get f).lowerName f } w :=
  { sound with
    functions := fun key b found => by
      rw [Table.get?_insert] at found
      split at found
      next same =>
        cases found
        exact ⟨known, same.symm⟩
      next => exact sound.functions key b found }

theorem enterFunction (sound : d.IsSound w) (f : FunctionId) (known : w.functions.has f) :
    IsSound
      { d with functions := (Scope.enter d.functions (w.functions.get f).lowerName f).2 } w := by
  unfold Scope.enter
  split
  next => exact sound
  next => exact sound.insertFunction f known

theorem addConstant (sound : d.IsSound w) (k : ConstantId) (known : w.constants.has k) :
    IsSound { d with constants := d.constants.add (w.constants.get k) k } w := by
  unfold ConstantSet.add
  split
  next sensitive =>
    refine { sound with exact := fun key b found => ?_ }
    rw [Table.get?_insert] at found
    split at found
    next same =>
      cases found
      exact ⟨known, sensitive, same.symm⟩
    next => exact sound.exact key b found
  next folded =>
    refine { sound with folded := fun key b found => ?_ }
    rw [Table.get?_insert] at found
    split at found
    next same =>
      cases found
      exact ⟨known, by simpa using folded, same.symm⟩
    next => exact sound.folded key b found

theorem enterConstant (sound : d.IsSound w) (k : ConstantId) (known : w.constants.has k) :
    IsSound
      { d with constants := (ConstantRegistry.enterSet d.constants (w.constants.get k) k).2 } w := by
  unfold ConstantRegistry.enterSet
  split
  next => exact sound
  next => exact sound.addConstant k known

theorem enterClasses (items : List ClassId) (known : ∀ k ∈ items, w.classes.has k)
    (sound : d.IsSound w) :
    IsSound
      { d with
        classes := items.foldl (fun t k => (Scope.enter t (w.classes.get k).lowerName k).2)
          d.classes } w := by
  induction items generalizing d with
  | nil => exact sound
  | cons k rest ih =>
    exact ih (fun k' member => known k' (List.mem_cons_of_mem _ member))
      (sound.enterClass k (known k List.mem_cons_self))

theorem enterFunctions (items : List FunctionId) (known : ∀ f ∈ items, w.functions.has f)
    (sound : d.IsSound w) :
    IsSound
      { d with
        functions := items.foldl (fun t f => (Scope.enter t (w.functions.get f).lowerName f).2)
          d.functions } w := by
  induction items generalizing d with
  | nil => exact sound
  | cons f rest ih =>
    exact ih (fun f' member => known f' (List.mem_cons_of_mem _ member))
      (sound.enterFunction f (known f List.mem_cons_self))

theorem enterConstants (items : List ConstantId) (known : ∀ k ∈ items, w.constants.has k)
    (sound : d.IsSound w) :
    IsSound
      { d with
        constants := items.foldl (fun t k => (ConstantRegistry.enterSet t (w.constants.get k) k).2)
          d.constants } w := by
  induction items generalizing d with
  | nil => exact sound
  | cons k rest ih =>
    exact ih (fun k' member => known k' (List.mem_cons_of_mem _ member))
      (sound.enterConstant k (known k List.mem_cons_self))

theorem publishIn {s : Scope} (sound : s.declarations.IsSound w) (m : ModuleId)
    (grounded : (w.modules.get m).isGrounded w) :
    (Modules.publishIn w m s).declarations.IsSound w := by
  obtain ⟨classes, functions, constants⟩ := (Module.isGrounded_iff _ w).1 grounded
  have withClasses := sound.enterClasses
    ((w.modules.get m).classes.filter fun k => (w.classes.get k).isStatic)
    fun k member => classes k (List.mem_filter.1 member).1
  have withFunctions := withClasses.enterFunctions
    ((w.modules.get m).functions.filter fun f => (w.functions.get f).isStatic)
    fun f member => functions f (List.mem_filter.1 member).1
  exact withFunctions.enterConstants _ constants

theorem overlayFunctions (sound : d.IsSound w) {t u : Table FunctionId}
    (lower : ∀ key f, t.get? key = some f →
      w.functions.has f ∧ (w.functions.get f).lowerName = key)
    (upper : ∀ key f, u.get? key = some f →
      w.functions.has f ∧ (w.functions.get f).lowerName = key) :
    IsSound { d with functions := t.overlay u } w :=
  { sound with
    functions := fun key f found => by
      rw [Table.get?_overlay, Option.or_eq_some_iff] at found
      rcases found with above | ⟨_, below⟩
      · exact upper key f above
      · exact lower key f below }

theorem overlayConstants (sound : d.IsSound w) {e e' : Declarations} (lower : e.IsSound w)
    (upper : e'.IsSound w) :
    IsSound { d with constants := e.constants.overlay e'.constants } w :=
  { sound with
    exact := fun key k found => by
      rw [ConstantSet.overlay, Table.get?_overlay, Option.or_eq_some_iff] at found
      rcases found with above | ⟨_, below⟩
      · exact upper.exact key k above
      · exact lower.exact key k below
    folded := fun key k found => by
      rw [ConstantSet.overlay, Table.get?_overlay, Option.or_eq_some_iff] at found
      rcases found with above | ⟨_, below⟩
      · exact upper.folded key k above
      · exact lower.folded key k below }

theorem find_constant (sound : d.IsSound w) {name : Bytes} {k : ConstantId}
    (found : d.constants.find? name = some k) : w.constants.has k ∧
      if (w.constants.get k).isCaseSensitive then (w.constants.get k).name = name
      else (w.constants.get k).lowerName = name.lower := by
  unfold ConstantSet.find? at found
  split at found
  next there =>
    cases found
    obtain ⟨known, sensitive, own⟩ := sound.exact _ _ there
    exact ⟨known, by rw [if_pos sensitive]; exact own⟩
  next =>
    obtain ⟨known, folded, own⟩ := sound.folded _ _ found
    exact ⟨known, by rw [folded]; exact own⟩

end Declarations.IsSound

namespace FrameOf.IsKnown

variable {τ : Type} {w w' : World τ} {f : Frame}

theorem of_self {o : ObjectId} (self : f.self = some o) (known : w.objects.has o) : f.IsKnown w :=
  fun _ same => Option.some.inj (self.symm.trans same) ▸ known

theorem extend (later : w.Extends w') (known : f.IsKnown w) : f.IsKnown w' :=
  fun o self => (later.objects o (known o self)).1

end FrameOf.IsKnown

namespace CallStack.IsSound

variable {τ : Type} {w w' : World τ} {s t : CallStack Activation} {next : Nat}

theorem empty (next : Nat) (w : World τ) : (CallStack.empty : CallStack Activation).IsSound next w := by
  have none : (CallStack.empty : CallStack Activation).toList = [] := rfl
  constructor <;> simp [none]

theorem extend (later : w.Extends w') (sound : s.IsSound next w) : s.IsSound next w' :=
  { sound with known := fun a member => (sound.known a member).extend later }

theorem within (sound : s.IsSound next w) (within : t.Within s) : t.IsSound next w where
  below b member := by
    obtain ⟨a, there, same⟩ := within b member
    exact Activation.serial_of_outline same ▸ sound.below a there
  unique b member b' member' serial := by
    obtain ⟨a, there, same⟩ := within b member
    obtain ⟨a', there', same'⟩ := within b' member'
    have numbers : a.serial = a'.serial := (Activation.serial_of_outline same).trans
      (serial.trans (Activation.serial_of_outline same').symm)
    exact same.symm.trans ((sound.unique a there a' there' numbers).trans same')
  known b member := by
    obtain ⟨a, there, same⟩ := within b member
    exact fun o named => sound.known a there o ((Activation.self_of_outline same).trans named)

theorem push (sound : s.IsSound next w) {f : Frame} (known : f.IsKnown w) :
    (s.push { serial := next, frame := f }).IsSound (next + 1) w where
  below a member := by
    rcases mem_push member with before | rfl
    · exact Nat.lt_succ_of_lt (sound.below a before)
    · exact Nat.lt_succ_self _
  unique a member b member' serial := by
    rcases mem_push member with before | rfl <;> rcases mem_push member' with before' | rfl
    · exact sound.unique a before b before' serial
    · exact absurd serial (Nat.ne_of_lt (sound.below a before))
    · exact absurd serial.symm (Nat.ne_of_lt (sound.below b before'))
    · rfl
  known a member := by
    rcases mem_push member with before | rfl
    · exact sound.known a before
    · exact known

end CallStack.IsSound

namespace Context.IsSound

variable {τ : Type} {w w' : World τ} {x : Context}

theorem extend (later : w.Extends w') (sound : x.IsSound w) : x.IsSound w' where
  declarations := sound.declarations.extend later
  calls := sound.calls.extend later
  tracker := sound.tracker
  tracked o member := (later.objects o (sound.tracked o member)).1

theorem of_calls (sound : x.IsSound w) {y : Context} (same : y.holdings = x.holdings)
    (calls : y.calls.IsSound y.nextSerial w) : y.IsSound w := by
  have declarations : y.declarations = x.declarations :=
    congrArg (fun v : Holdings => Declarations.mk v.classes v.functions v.constants) same
  have tracker : y.tracker = x.tracker := congrArg Holdings.tracker same
  exact ⟨declarations ▸ sound.declarations, calls, tracker ▸ sound.tracker, tracker ▸ sound.tracked⟩

theorem of_holdings (sound : x.IsSound w) {y : Context} (same : y.holdings = x.holdings)
    (activity : y.activity = x.activity) : y.IsSound w := by
  obtain ⟨calls, serial⟩ := Prod.mk.inj activity
  exact sound.of_calls same (calls ▸ serial ▸ sound.calls)

theorem fresh (sound : w.Sound) (x : Context) (fresh : x.IsFresh w) : x.IsSound w where
  declarations :=
    { sound.scopes x.scope with
      classes := fun key k found => by
        rw [show x.declarations.classes = .empty from fresh.classes] at found
        cases found
      functions := by
        rw [show x.declarations.functions = _ from fresh.functions]
        exact (sound.scopes x.scope).functions
      exact := by
        rw [show x.declarations.constants = _ from fresh.constants]
        exact (sound.scopes x.scope).exact
      folded := by
        rw [show x.declarations.constants = _ from fresh.constants]
        exact (sound.scopes x.scope).folded }
  calls := by
    rw [fresh.calls]
    exact .empty _ w
  tracker := by
    rw [fresh.tracker]
    exact Tracker.empty_sound
  tracked := by
    rw [fresh.tracker]
    exact fun o member => by cases member

theorem drain (sound : x.IsSound w) : Context.IsSound { x with tracker := x.tracker.drain } w :=
  { sound with
    tracker := sound.tracker.drain
    tracked := fun o member =>
      sound.tracked o (((Tracker.drain_entries_sublist _).map _).subset member) }

theorem track (sound : x.IsSound w) (o : ObjectId) (known : w.objects.has o) :
    Context.IsSound { x with tracker := (x.tracker.add o).2 } w :=
  { sound with
    tracker := sound.tracker.add o
    tracked := fun d member => by
      rcases Tracker.mem_objects_add member with old | rfl
      · exact sound.tracked d old
      · exact known }

end Context.IsSound

namespace World.Sound

variable {τ σ : Type} {w w' : World τ}

theorem house (sound : w.Sound) (later : w.Extends w') {c : ContextId} (there : w.contexts.has c) :
    w'.scopes.has (w'.context c).scope := by
  rw [(later.contexts c there).2.1]
  exact (later.scopes _ (sound.housed c there)).1

theorem extend (sound : w.Sound) (later : w.Extends w') (modules : w'.modules = w.modules)
    (scopes : w'.scopes = w.scopes) (contexts : w'.contexts = w.contexts) : w'.Sound where
  modules m := by rw [modules]; exact Module.isGrounded_extend later (sound.modules m)
  scopes s := by rw [scopes]; exact (sound.scopes s).extend later
  contexts c := by rw [World.context, contexts]; exact (sound.contexts c).extend later
  housed c there := sound.house later (contexts ▸ there)

theorem updateContext (sound : w.Sound) (c : ContextId) (f : Context → Context)
    (later : w.Extends (w.updateContext c f))
    (keeps : (w.context c).IsSound w → (f (w.context c)).IsSound w) :
    (w.updateContext c f).Sound where
  modules m := Module.isGrounded_extend later (sound.modules m)
  scopes s := (sound.scopes s).extend later
  contexts d := by
    refine Context.IsSound.extend later ?_
    show ((w.contexts.modify c f).get d).IsSound w
    rw [Pool.get_modify]
    split
    next here => exact here.1 ▸ keeps (sound.contexts c)
    next => exact sound.contexts d
  housed d there := sound.house later ((w.contexts.has_modify c d f).symm.trans there)

theorem updateScope (sound : w.Sound) (s : ScopeId) (f : Scope → Scope)
    (later : w.Extends (w.updateScope s f))
    (keeps : ∀ x : Scope, x.declarations.IsSound w → (f x).declarations.IsSound w) :
    (w.updateScope s f).Sound := by
  refine ⟨fun m => Module.isGrounded_extend later (sound.modules m), fun t => ?_,
    fun c => (sound.contexts c).extend later, fun _ there => sound.house later there⟩
  refine Declarations.IsSound.extend later ?_
  show ((w.scopes.modify s f).get t).declarations.IsSound w
  rw [Pool.get_modify]
  split
  next => exact keeps _ (sound.scopes t)
  next => exact sound.scopes t

theorem setImporting (sound : w.Sound) (s : ScopeId) (isImporting : Bool) :
    (w.setImporting s isImporting).Sound :=
  sound.updateScope s _ (w.extends_setImporting s isImporting) fun _ there => { there with }

theorem nameModule (sound : w.Sound) (m : ModuleId) (name internalName : Bytes) (minted : Nat) :
    (w.nameModule m name internalName minted).Sound := by
  have later := World.Extends.nameModule w m name internalName minted
  refine ⟨fun d => Module.isGrounded_extend later ?_, fun s => (sound.scopes s).extend later,
    fun c => (sound.contexts c).extend later, fun _ there => sound.house later there⟩
  have kept : ((w.nameModule m name internalName minted).modules.get d).isGrounded w =
      (w.modules.get d).isGrounded w :=
    w.modules.modify_keeps m d _ (·.isGrounded w) fun _ => rfl
  rw [kept]
  exact sound.modules d

theorem conclude (sound : w.Sound) (s : ScopeId) (source : Source) (m : ModuleId) :
    (w.conclude s source m).Sound := by
  obtain ⟨internalName, minted, same⟩ := w.conclude_eq s source m
  have named := sound.nameModule m source.name internalName minted
  rw [same]
  exact named.updateScope s _ (.updateScope _ s _ fun x => .publishIn x _ m) fun _ there =>
    there.publishIn m (named.modules m)

theorem addModule (sound : w.Sound) (m : Module) (grounded : m.isGrounded w) :
    World.Sound { w with modules := w.modules.add m } := by
  have later := World.Extends.addModule w m
  refine ⟨fun d => Module.isGrounded_extend later ?_, fun s => (sound.scopes s).extend later,
    fun c => (sound.contexts c).extend later, fun _ there => sound.house later there⟩
  show ((w.modules.add m).get d).isGrounded w
  rw [Pool.get_add]
  split
  next => exact grounded
  next => exact sound.modules d

theorem addScope (sound : w.Sound) (s : Scope) :
    World.Sound { w with scopes := w.scopes.add s.bare } := by
  have later := World.Extends.addScope w s.bare
  refine ⟨fun m => Module.isGrounded_extend later (sound.modules m), fun t => ?_,
    fun c => (sound.contexts c).extend later, fun _ there => sound.house later there⟩
  refine Declarations.IsSound.extend later ?_
  show ((w.scopes.add s.bare).get t).declarations.IsSound w
  rw [Pool.get_add]
  split
  next => exact .bare s w
  next => exact sound.scopes t

theorem install (sound : w.Sound) (x : Context) (fresh : x.IsFresh w) : (w.install x).Sound := by
  have later := World.Extends.install w x
  refine ⟨fun m => Module.isGrounded_extend later (sound.modules m),
    fun s => (sound.scopes s).extend later, fun c => ?_, fun c there => ?_⟩
  · refine Context.IsSound.extend later ?_
    show ((w.contexts.add x).get c).IsSound w
    rw [Pool.get_add]
    split
    next => exact .fresh sound x fresh
    next => exact sound.contexts c
  · by_cases new : c = w.contexts.next
    · rw [World.context, new]
      rw [show ((w.install x).contexts.get w.contexts.next) = x from Pool.get_add_next ..]
      exact fresh.scope
    · exact sound.house later (Pool.has_of_has_add there new)

theorem provide (sound : w.Sound) (s : ScopeId) : (w.provide s).Sound :=
  sound.extend (w.extends_provide s) rfl rfl rfl

theorem enlist (sound : w.Sound) {s : ScopeId} (known : w.scopes.has s) (sink : SinkId) :
    (w.enlist s sink).Sound :=
  (sound.provide s).install _ (w.newcomer_isFresh known sink)

theorem shut (sound : w.Sound) (c : ContextId) : (w.shut c).Sound :=
  sound.updateContext c _ (w.extends_shut c) fun there => there.of_holdings rfl rfl

theorem close (sound : w.Sound) (c : ContextId) : (w.close c).Sound :=
  (sound.shut c).extend (.of_same rfl rfl rfl rfl rfl rfl rfl) rfl rfl rfl

theorem insertClass (sound : w.Sound) (c : ContextId) (k : ClassId) (known : w.classes.has k) :
    (w.insertClass c k).Sound :=
  sound.updateContext c _ (w.extends_insertClass c k) fun there =>
    { there with declarations := there.declarations.insertClass k known }

theorem eraseClass (sound : w.Sound) (c : ContextId) (lower : Bytes) :
    (w.updateContext c fun x => { x with classes := x.classes.erase lower }).Sound :=
  sound.updateContext c _ (.updateContext _ c _ (.of_same rfl rfl rfl rfl rfl rfl))
    fun there => { there with declarations := there.declarations.eraseClass lower }

theorem recordModule (sound : w.Sound) (c : ContextId) (m : ModuleId) :
    (w.recordModule c m).Sound :=
  sound.updateContext c _ (w.extends_recordModule c m)
    fun there => ⟨there.1, there.2, there.3, there.4⟩

theorem pushFrame (sound : w.Sound) (c : ContextId) {f : Frame} (known : f.IsKnown w) :
    (w.pushFrame c f).Sound :=
  sound.updateContext c _ (w.extends_pushFrame c f) fun there =>
    there.of_calls rfl (there.calls.push known)

theorem popFrame (sound : w.Sound) (c : ContextId) : (w.popFrame c).Sound := by
  have later := w.extends_popFrame c
  unfold World.popFrame at *
  split at later
  next none => simpa [none] using sound
  next top calls some =>
    simpa [some] using sound.updateContext c (fun x => { x with calls })
      (by simpa [some] using later) fun there => there.of_calls rfl (there.calls.within (.pop? some))

theorem markFinalized (sound : w.Sound) (o : ObjectId) : (w.markFinalized o).Sound :=
  sound.extend (.markFinalized w o) rfl rfl rfl

theorem reclaim (sound : w.Sound) (c : ContextId) (handle : Nat) : (w.reclaim c handle).Sound :=
  sound.updateContext c _ (w.extends_reclaim c handle) fun there =>
    { there with tracker := there.tracker.reclaim handle, tracked := there.tracked }

theorem updateLoaders (sound : w.Sound) (c : ContextId) (f : AutoloadChain → AutoloadChain) :
    (w.updateLoaders c f).Sound :=
  sound.updateContext c _ (w.extends_updateLoaders c f) fun there => there.of_holdings rfl rfl

variable {w : Recorded σ}

theorem note (sound : w.Sound) (event : Event) : (w.note event).Sound :=
  sound.extend (w.extends_note event) rfl rfl rfl

theorem begin (sound : w.Sound) (o : Operation) : (w.begin o).Sound :=
  sound.extend (w.extends_begin o) rfl rfl rfl

theorem finish (sound : w.Sound) (running : List Operation) (o : Operation)
    (outcome : Except Signal o.Result) : (w.finish running o outcome).Sound :=
  sound.extend (w.extends_finish running o outcome) rfl rfl rfl

theorem retire {v : Recorded σ} {c : ContextId} {o : ObjectId} (sound : w.Sound)
    (retires : w.Retires c o v) : v.Sound := by
  cases retires with
  | asked => exact sound.markFinalized o
  | visited handle => exact (sound.markFinalized o).reclaim c handle

theorem destroying {v : Recorded σ} {c : ContextId} {o : ObjectId} {f : Frame} (sound : w.Sound)
    (retires : w.Retires c o v) (known : f.IsKnown w) : (v.pushFrame c f).Sound :=
  (sound.retire retires).pushFrame c (known.extend retires.extends)

theorem leaveHook (sound : w.Sound) (c : ContextId) (lower : Bytes) (hook : Callback)
    (outcome : Except Signal (Option Failure)) : (w.leaveHook c lower hook outcome).Sound := by
  have noted := sound.note (.answered (.enterClass hook c) outcome)
  unfold World.leaveHook
  split
  next => exact noted.eraseClass c lower
  next => exact noted

end World.Sound

theorem World.start_sound {σ : Type} (files : FileTree) (own : σ) :
    (World.start files own).Sound where
  modules _ := rfl
  scopes _ := by constructor <;> intro key k found <;> cases found
  contexts _ := by
    constructor
    · constructor <;> intro key k found <;> cases found
    · exact .empty _ _
    · exact Tracker.empty_sound
    · exact fun o member => by cases member
  housed _ there := nomatch there

theorem Change.sound {σ : Type} {making : List ContextId} {w w' : Recorded σ}
    (step : Change making w w') (sound : w.Sound) : w'.Sound := by
  have later := step.extends
  cases step with
  | surroundings | addClass | addMethod | shareClass | addFunction | shareFunction | addConstant
  | addObject | markFinalized | setOwn | note => exact sound.extend later rfl rfl rfl
  | addModule m grounded => exact sound.addModule m grounded
  | addScope s => exact sound.addScope s
  | setDefaults s f => exact sound.updateScope s _ later (fun _ there => { there with })
  | declareClass s k known =>
    exact sound.updateScope s _ later (fun _ there => there.enterClass k known)
  | declareFunction s f known =>
    exact sound.updateScope s _ later (fun _ there => there.enterFunction f known)
  | declareConstant s k known =>
    exact sound.updateScope s _ later (fun _ there => there.enterConstant k known)
  | pushCall c f a moves asked known => exact sound.pushFrame c known
  | popCall c => exact sound.popFrame c
  | adjust c f adjusts =>
    exact sound.updateContext c f later fun there =>
      there.of_holdings (adjusts _).holdings (adjusts _).activity
  | close c => exact sound.close c
  | loadClass c k known => exact sound.insertClass c k known
  | cacheFunction c lower f absent shared =>
    obtain ⟨known, rfl⟩ := (sound.scopes _).functions lower f shared
    exact sound.updateContext c _ later fun there =>
      { there with declarations := there.declarations.insertFunction f known }
  | insertFunction c f known =>
    exact sound.updateContext c _ later fun there =>
      { there with declarations := there.declarations.insertFunction f known }
  | mergeFunctions c =>
    exact sound.updateContext c _ later fun there =>
      { there with
        declarations := there.declarations.overlayFunctions
          (sound.scopes (w.context c).scope).functions there.declarations.functions }
  | cacheConstant c name k absent shared =>
    have known := ((sound.scopes _).find_constant shared).1
    exact sound.updateContext c _ later fun there =>
      { there with declarations := there.declarations.addConstant k known }
  | insertConstant c k known =>
    exact sound.updateContext c _ later fun there =>
      { there with declarations := there.declarations.addConstant k known }
  | assign c distance top args peeked =>
    exact sound.updateContext c _ later fun there =>
      there.of_calls rfl (there.calls.within (.assign args peeked))
  | remember c serial f keepsSerial keepsFrame =>
    exact sound.updateContext c _ later fun there =>
      there.of_calls rfl (there.calls.within (.remember serial keepsSerial keepsFrame))
  | inherit c p =>
    have parent := (sound.contexts p).declarations
    exact sound.updateContext c _ later fun there =>
      { there with
        declarations := (there.declarations.overlayFunctions there.declarations.functions
          parent.functions).overlayConstants there.declarations parent }
  | reclaim c handle => exact sound.reclaim c handle
  | drain c => exact sound.updateContext c _ later (fun there => there.drain)
  | track c o known => exact sound.updateContext c _ later (fun there => there.track o known)

theorem Course.sound {σ : Type} {making : List ContextId} {w w' : Recorded σ}
    (course : Course making w w') (sound : w.Sound) : w'.Sound := by
  induction course with
  | still => exact sound
  | change step => exact step.sound sound
  | trans _ _ first rest => exact rest (first sound)
  | operation o outcome _ _ _ ih => exact (ih (sound.begin o)).finish _ o outcome
  | frame c f _ calls ih => exact (ih (sound.pushFrame c calls.known)).popFrame c
  | autoload c _ _ _ _ _ ih => exact (ih (sound.updateLoaders c _)).updateLoaders c _
  | destructor c o k f _ _ _ retires _ calls ih =>
    exact (ih ((sound.destroying retires calls.known).note _)).popFrame c
  | hook c k k' _ known _ _ outcome _ _ _ ih =>
    exact (ih ((sound.insertClass c k known).note _)).leaveHook c _ k' outcome
  | registration c m _ _ _ _ ih => exact (ih sound).recordModule c m
  | attempt c _ _ _ ih => exact (ih (sound.setImporting _ true)).setImporting _ false
  | @loading _ w u v w' c source _ _ _ _ event m _ _ ended before after =>
    have kept := after ((before (sound.setImporting _ true)).note event)
    refine World.Sound.setImporting ?_ _ false
    rcases ended with rfl | ⟨rfl, -⟩
    · exact kept.conclude _ source m
    · exact kept
  | creation s sink known _ _ ih => exact ih (sound.enlist known sink)

end ScriptHost
