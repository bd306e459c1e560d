import ScriptHost.Proofs.Embedder.Invariants
import ScriptHost.Proofs.Lifecycle.Handles

set_option autoImplicit false

namespace ScriptHost

variable {σ : Type} {making : List ContextId}

namespace Classes

variable {p p' : Classes}

theorem findDestructor_ancestry (keeps : ∀ d, p.has d →
      (p'.get d).parent = (p.get d).parent ∧ (p'.get d).destructor = (p.get d).destructor)
    {bound bound' : Nat} (wider : bound ≤ bound') {k : ClassId} {found : ClassId × Method}
    (there : (ancestry p bound k).findSome? (fun d => (p.get d).destructor.map (d, ·)) = some found) :
    (ancestry p' bound' k).findSome? (fun d => (p'.get d).destructor.map (d, ·)) = some found := by
  induction bound generalizing bound' k with
  | zero => cases there
  | succ bound ih =>
    obtain ⟨bound', rfl⟩ := Nat.exists_eq_add_of_le' (Nat.lt_of_lt_of_le (Nat.succ_pos _) wider)
    -- an unknown class has neither a destructor nor a parent
    have known : p.has k := by
      by_cases known : p.has k
      · exact known
      · rw [ancestry, Pool.get_of_not_has _ known, List.findSome?_cons,
          Pool.get_of_not_has _ known] at there
        cases there
    obtain ⟨parent, destructor⟩ := keeps k known
    rw [ancestry, List.findSome?_cons] at there ⊢
    rw [parent, destructor]
    cases own : (p.get k).destructor with
    | some d => rwa [own] at there
    | none =>
      rw [own] at there
      cases above : (p.get k).parent with
      | none =>
        rw [above] at there
        cases there
      | some a =>
        rw [above] at there
        exact ih (Nat.le_of_succ_le_succ wider) there

theorem findDestructor_later (size : p.size ≤ p'.size) (keeps : ∀ d, p.has d →
      (p'.get d).parent = (p.get d).parent ∧ (p'.get d).destructor = (p.get d).destructor)
    {k : ClassId} {found : ClassId × Method} (there : p.findDestructor k = some found) :
    p'.findDestructor k = some found :=
  findDestructor_ancestry keeps size there

theorem findDestructor_add (p : Classes) (k : Class) {e : ClassId} {found : ClassId × Method}
    (there : p.findDestructor e = some found) : Classes.findDestructor (p.add k) e = some found := by
  have size : p.size ≤ Pool.size (p.add k) := by simp [Pool.size, Pool.add]
  refine findDestructor_later size (fun d known => ?_) there
  rw [Pool.get_add_of_has p k known]
  exact ⟨rfl, rfl⟩

theorem findDestructor_modify (p : Classes) (k : ClassId) {f : Class → Class}
    (parent : ∀ e, (f e).parent = e.parent) (destructor : ∀ e, (f e).destructor = e.destructor)
    {e : ClassId} {found : ClassId × Method} (there : p.findDestructor e = some found) :
    Classes.findDestructor (p.modify k f) e = some found :=
  findDestructor_later (Nat.le_of_eq (p.size_modify k f).symm)
    (fun d _ => ⟨p.modify_keeps k d f Class.parent parent,
      p.modify_keeps k d f Class.destructor destructor⟩) there

end Classes

def HasAsked (moments : List (Moment σ)) (running : List Operation) (p : Operation → Prop) : Prop :=
  (∃ o ∈ running, p o) ∨ ∃ m ∈ moments, ∃ o outcome, m.event = .finished o outcome ∧ p o

def Operation.Disarms (o : ObjectId) : Operation → Prop
  | .markFinalized d => d = o
  | .addMethod _ m => m.name.lower = Class.destructorName
  | _ => False

namespace HasAsked

variable {moments more : List (Moment σ)} {running running' : List Operation} {p : Operation → Prop}

theorem mono (asked : HasAsked moments running p) (later : moments ⊆ more)
    (inside : running ⊆ running') : HasAsked more running' p :=
  asked.imp (fun ⟨o, member, holds⟩ => ⟨o, inside member, holds⟩)
    fun ⟨m, member, holds⟩ => ⟨m, later member, holds⟩

theorem finish {o : Operation} (asked : HasAsked moments (o :: running) p)
    (outcome : Except Signal o.Result) (w : World σ) :
    HasAsked (moments ++ [⟨.finished o outcome, running, w⟩]) running p := by
  rcases asked with ⟨d, member, holds⟩ | ⟨m, member, holds⟩
  · rcases List.mem_cons.1 member with rfl | outer
    · exact .inr ⟨_, List.mem_append_right _ List.mem_cons_self, d, outcome, rfl, holds⟩
    · exact .inl ⟨d, outer, holds⟩
  · exact .inr ⟨m, List.mem_append_left _ member, holds⟩

theorem of_head? {o : Operation} (asked : running.head? = some o) (holds : p o) :
    HasAsked moments running p :=
  .inl ⟨o, List.mem_of_head? asked, holds⟩

end HasAsked

namespace World

variable {u v w : World σ} {moments more : List (Moment σ)} {running running' : List Operation}

theorem has_of_destructor? {τ : Type} (w : World τ) {o : ObjectId} {k : Callback}
    (own : w.destructor? o = some k) : w.objects.has o := by
  by_cases known : w.objects.has o
  · exact known
  · rw [destructor?, Pool.get_of_not_has _ known] at own
    cases own

def IsArmed (w : World σ) (o : ObjectId) (k : Callback) : Prop :=
  (w.objects.get o).isFinalized = false ∧ w.destructor? o = some k

/-- What has been tracked or had a destructor in an earlier world is accounted for in a later one:
it is so still, or it is finalized and the destructor has been called, unless the embedder itself has
asked for something else. -/
structure Accounts (u : World σ) (moments : List (Moment σ)) (running : List Operation)
    (w : World σ) : Prop where
  tracked : ∀ c handle o, (u.context c).tracker.Retains handle o →
    HasAsked moments running (· = .act c (.reclaim handle)) ∨ (w.objects.get o).isFinalized ∨
      (w.context c).tracker.Retains handle o
  armed : ∀ o k, u.IsArmed o k → HasAsked moments running (·.Disarms o) ∨
    (∃ m ∈ moments, ∃ c, m.event = .called (.destroyObject k c o)) ∨ w.IsArmed o k

namespace Accounts

theorem refl (w : World σ) (moments : List (Moment σ)) (running : List Operation) :
    w.Accounts moments running w :=
  ⟨fun _ _ _ retains => .inr (.inr retains), fun _ _ armed => .inr (.inr armed)⟩

theorem mono (accounts : u.Accounts moments running w) (later : moments ⊆ more)
    (inside : running ⊆ running') : u.Accounts more running' w where
  tracked c handle o retains := (accounts.tracked c handle o retains).imp_left (·.mono later inside)
  armed o k armed := (accounts.armed o k armed).imp (·.mono later inside)
    (Or.imp_left fun ⟨m, member, called⟩ => ⟨m, later member, called⟩)

theorem finish {o : Operation} (accounts : u.Accounts moments (o :: running) w)
    (outcome : Except Signal o.Result) :
    u.Accounts (moments ++ [⟨.finished o outcome, running, w⟩]) running w where
  tracked c handle d holds := (accounts.tracked c handle d holds).imp_left (·.finish outcome w)
  armed d k armed := (accounts.armed d k armed).imp (·.finish outcome w)
    (Or.imp_left fun ⟨m, member, called⟩ => ⟨m, List.mem_append_left _ member, called⟩)

theorem trans (first : u.Accounts moments running v) (rest : v.Accounts moments running w)
    (marks : ∀ o, (v.objects.get o).isFinalized → (w.objects.get o).isFinalized) :
    u.Accounts moments running w where
  tracked c handle o retains := by
    rcases first.tracked c handle o retains with asked | finalized | still
    · exact .inl asked
    · exact .inr (.inl (marks o finalized))
    · exact rest.tracked c handle o still
  armed o k armed := by
    rcases first.armed o k armed with asked | called | still
    · exact .inl asked
    · exact .inr (.inl called)
    · exact rest.armed o k still

theorem of_same (tracker : ∀ c, (w.context c).tracker = (v.context c).tracker)
    (objects : w.objects = v.objects) (classes : w.classes = v.classes) :
    v.Accounts moments running w where
  tracked c _ _ holds := .inr (.inr ((tracker c).symm ▸ holds))
  armed o k armed := by
    refine .inr (.inr ?_)
    rwa [IsArmed, destructor?, objects, classes]

theorem of_tracker (c : ContextId) {f : Tracker → Tracker}
    (kept : ∀ handle o, (v.context c).tracker.Retains handle o →
      HasAsked moments running (· = .act c (.reclaim handle)) ∨ (v.objects.get o).isFinalized ∨
        (f (v.context c).tracker).Retains handle o) :
    v.Accounts moments running (v.updateContext c fun x => { x with tracker := f x.tracker }) where
  tracked d handle o retains := by
    rw [context_updateContext]
    split
    next here =>
      obtain ⟨rfl, -⟩ := here
      exact kept handle o retains
    next => exact .inr (.inr retains)
  armed _ _ armed := .inr (.inr armed)

theorem reclaim (v : World σ) (c : ContextId) (handle : Nat)
    (spent : HasAsked moments running (· = .act c (.reclaim handle)) ∨
      ∀ o, (handle, o) ∈ (v.context c).tracker.entries → (v.objects.get o).isFinalized) :
    v.Accounts moments running (v.reclaim c handle) := by
  refine .of_tracker c (f := (·.reclaim handle)) fun other o retains => ?_
  by_cases same : handle = other
  · subst same
    exact spent.imp_right fun spent => .inl (spent o retains.tracked)
  · exact .inr (.inr (retains.reclaim same))

theorem of_classes {classes : Classes} (finds : ∀ k found, v.classes.findDestructor k = some found →
    classes.findDestructor k = some found) : v.Accounts moments running { v with classes } where
  tracked _ _ _ retains := .inr (.inr retains)
  armed o k armed := by
    obtain ⟨alive, own⟩ := armed
    refine .inr (.inr ⟨alive, ?_⟩)
    simp only [destructor?, Option.bind_eq_bind, Option.bind_eq_some_iff] at own ⊢
    obtain ⟨e, ofClass, found, there, invoke⟩ := own
    exact ⟨e, ofClass, found, finds e found there, invoke⟩

theorem addMethod (v : World σ) (k : ClassId) (m : Method)
    (asked : ∀ p : Operation → Prop, p (.addMethod k m) → HasAsked moments running p) :
    v.Accounts moments running { v with classes := v.classes.modify k (·.addMethod m) } := by
  by_cases destructor : m.name.lower = Class.destructorName
  · exact ⟨fun _ _ _ => (.inr <| .inr ·), fun _ _ _ => .inl (asked _ destructor)⟩
  · exact .of_classes fun _ _ =>
      Classes.findDestructor_modify v.classes k (f := (·.addMethod m)) (fun _ => rfl)
        fun _ => if_neg destructor

theorem markFinalized (v : World σ) (o : ObjectId)
    (spent : HasAsked moments running (·.Disarms o) ∨ v.destructor? o = none ∨
      ∀ k, v.destructor? o = some k → ∃ m ∈ moments, ∃ c, m.event = .called (.destroyObject k c o)) :
    v.Accounts moments running (v.markFinalized o) where
  tracked _ _ _ retains := .inr (.inr retains)
  armed d k armed := by
    by_cases same : o = d
    · subst same
      rcases spent with asked | none | called
      · exact .inl asked
      · exact nomatch none.symm.trans armed.2
      · exact .inr (.inl (called k armed.2))
    · refine .inr (.inr ⟨?_, (v.destructor?_markFinalized o d).trans armed.2⟩)
      exact (congrArg Object.isFinalized (Pool.get_modify_of_ne _ _ same)).trans armed.1

theorem addObject (v : World σ) (o : Object) :
    v.Accounts moments running { v with objects := v.objects.add o } where
  tracked _ _ _ retains := .inr (.inr retains)
  armed d k armed := by
    refine .inr (.inr ?_)
    rw [IsArmed, destructor?, Pool.get_add_of_has _ _ (v.has_of_destructor? armed.2)]
    exact armed

end Accounts

end World

theorem World.Retires.accounts {w v : Recorded σ} {c : ContextId} {o : ObjectId} {k : Callback}
    {f : Frame} {moments : List (Moment σ)} {running : List Operation} (retires : w.Retires c o v)
    (sound : w.Sound) (own : w.destructor? o = some k)
    (called : ∃ m ∈ moments, ∃ c, m.event = .called (.destroyObject k c o)) :
    w.unrecorded.Accounts moments running (v.pushFrame c f).unrecorded := by
  have marked : w.unrecorded.Accounts moments running (w.markFinalized o).unrecorded :=
    .markFinalized w.unrecorded o (.inr (.inr fun k' own' =>
      Option.some.inj (own.symm.trans own') ▸ called))
  have pushed : v.unrecorded.Accounts moments running (v.pushFrame c f).unrecorded :=
    .of_same (fun d => v.contexts.modify_keeps c d (·.pushFrame f) Context.tracker fun _ => rfl) rfl rfl
  cases retires with
  | asked => exact marked.trans pushed fun _ => id
  | visited handle found first =>
    have given : (w.markFinalized o).unrecorded.Accounts moments running
        ((w.markFinalized o).reclaim c handle).unrecorded := by
      refine .reclaim (w.markFinalized o).unrecorded c handle (.inr fun d tracked => ?_)
      obtain rfl : o = d :=
        Option.some.inj (found.symm.trans ((sound.contexts c).tracker.object?_iff.2 tracked))
      exact congrArg Object.isFinalized (Pool.get_modify_self w.objects o _ (w.has_of_destructor? own))
    exact (marked.trans given fun _ => id).trans pushed fun _ => id

/-- A point in a stretch of a run, with what has happened since: its start, or a moment of it. -/
inductive Since (u : World σ) (moments : List (Moment σ)) : World σ → List (Moment σ) → Prop
  | start : Since u moments u moments
  | moment (early : List (Moment σ)) (m : Moment σ) (late : List (Moment σ))
      (split : moments = early ++ m :: late) : Since u moments m.world late

theorem Since.of_concat {u v : World σ} {moments rest : List (Moment σ)} {m : Moment σ}
    (since : Since u (moments ++ [m]) v rest) :
    (∃ late, rest = late ++ [m] ∧ Since u moments v late) ∨ v = m.world ∧ rest = [] := by
  cases since with
  | start => exact .inl ⟨moments, rfl, .start⟩
  | moment early e late split =>
    rcases split_concat split with ⟨-, rfl, rfl⟩ | ⟨late, rfl, rfl⟩
    · exact .inr ⟨rfl, rfl⟩
    · exact .inl ⟨late, rfl, .moment early e late rfl⟩

structure Accounted (u : World σ) (moments : List (Moment σ)) (running : List Operation)
    (w : World σ) : Prop where
  now : ∀ v late, Since u moments v late → v.Accounts late running w
  earlier : ∀ before m after, moments = before ++ m :: after →
    ∀ v late, Since u before v late → v.Accounts (late ++ [m]) m.running m.world

theorem Accounted.concat {u w : World σ} {moments : List (Moment σ)} {running : List Operation}
    (accounted : Accounted u moments running w) {m : Moment σ}
    (ends : ∀ (v : World σ) late, v.Accounts late running w →
      v.Accounts (late ++ [m]) m.running m.world) :
    Accounted u (moments ++ [m]) m.running m.world where
  now v rest since := by
    obtain ⟨late, rfl, before⟩ | ⟨rfl, rfl⟩ := since.of_concat
    · exact ends v late (accounted.now v late before)
    · exact .refl _ _ _
  earlier before e after split v late since := by
    rcases split_concat split with ⟨rfl, rfl, -⟩ | ⟨rest, -, rfl⟩
    · exact ends v late (accounted.now v late since)
    · exact accounted.earlier before e rest rfl v late since

theorem Accounted.between {u w : World σ} {moments early between late : List (Moment σ)}
    {running : List Operation} {e m : Moment σ} (accounted : Accounted u moments running w)
    (split : moments = early ++ e :: (between ++ m :: late)) :
    e.world.Accounts (between ++ [m]) m.running m.world :=
  accounted.earlier (early ++ e :: between) m late (by simp [split]) e.world between
    (.moment early e between rfl)

namespace World

def IsTallied (prior : List (Moment σ)) (u : World σ) (w : Recorded σ) : Prop :=
  ∃ moments, w.embedder.journal = prior ++ moments ∧
    Accounted u moments w.embedder.running w.unrecorded

namespace IsTallied

variable {prior : List (Moment σ)} {u : World σ} {w w' : Recorded σ}

theorem start (w : Recorded σ) : IsTallied w.embedder.journal w.unrecorded w := by
  refine ⟨[], (List.append_nil _).symm, fun v late since => ?_, fun _ _ _ split => ?_⟩
  · cases since with
    | start => exact .refl _ _ _
    | moment _ _ _ split => simp at split
  · simp at split

theorem later (accounted : IsTallied prior u w) (embedder : w'.embedder.journal = w.embedder.journal)
    (running : w'.embedder.running = w.embedder.running)
    (marks : ∀ o, (w.objects.get o).isFinalized → (w'.objects.get o).isFinalized)
    (step : ∀ moments, w.unrecorded.Accounts moments w.embedder.running w'.unrecorded) :
    IsTallied prior u w' := by
  obtain ⟨moments, journal, now, earlier⟩ := accounted
  refine ⟨moments, embedder.trans journal, fun v late since => ?_, earlier⟩
  rw [running]
  exact (now v late since).trans (step late) marks

theorem same (accounted : IsTallied prior u w) (embedder : w'.embedder = w.embedder)
    (tracker : ∀ c, (w'.context c).tracker = (w.context c).tracker)
    (objects : w'.objects = w.objects) (classes : w'.classes = w.classes) :
    IsTallied prior u w' :=
  accounted.later (congrArg Ledger.journal embedder) (congrArg Ledger.running embedder)
    (fun _ => objects ▸ id) fun _ => .of_same tracker objects classes

theorem updateContext (accounted : IsTallied prior u w) (c : ContextId) {f : Context → Context}
    (keeps : ∀ x, (f x).tracker = x.tracker) : IsTallied prior u (w.updateContext c f) :=
  accounted.same rfl (fun d => w.contexts.modify_keeps c d f Context.tracker keeps) rfl rfl

theorem popFrame (accounted : IsTallied prior u w) (c : ContextId) :
    IsTallied prior u (w.popFrame c) := by
  unfold World.popFrame
  split
  · exact accounted
  · exact accounted.updateContext c fun _ => rfl

theorem note (accounted : IsTallied prior u w) (event : Event) :
    IsTallied prior u (w.note event) := by
  obtain ⟨moments, journal, kept⟩ := accounted
  have noted := kept.concat (m := ⟨event, w.embedder.running, w.unrecorded⟩) fun v late accounts =>
    accounts.mono (List.subset_append_left _ _) (List.Subset.refl _)
  exact ⟨_, (congrArg (· ++ [_]) journal).trans (List.append_assoc ..), noted⟩

theorem begin (accounted : IsTallied prior u w) (o : Operation) :
    IsTallied prior u (w.begin o) := by
  obtain ⟨moments, journal, now, earlier⟩ := accounted
  exact ⟨moments, journal, fun v late since =>
    (now v late since).mono (List.Subset.refl _) (List.subset_cons_self _ _), earlier⟩

theorem finish {running : List Operation} {o : Operation} (accounted : IsTallied prior u w)
    (inside : w.embedder.running = o :: running) (outcome : Except Signal o.Result) :
    IsTallied prior u (w.finish running o outcome) := by
  obtain ⟨moments, journal, kept⟩ := accounted
  rw [inside] at kept
  have ended := kept.concat (m := ⟨.finished o outcome, running, w.unrecorded⟩)
    fun v late accounts => accounts.finish outcome
  exact ⟨_, (congrArg (· ++ [_]) journal).trans (List.append_assoc ..), ended⟩

theorem leaveHook (accounted : IsTallied prior u w) (c : ContextId) (lower : Bytes)
    (hook : Callback) (outcome : Except Signal (Option Failure)) :
    IsTallied prior u (w.leaveHook c lower hook outcome) := by
  have noted := accounted.note (.answered (.enterClass hook c) outcome)
  unfold World.leaveHook
  split
  · exact noted.updateContext c fun _ => rfl
  · exact noted

theorem enlist (accounted : IsTallied prior u w) (s : ScopeId) (sink : SinkId) :
    IsTallied prior u (w.enlist s sink) := by
  refine accounted.later rfl rfl (fun _ => id) fun _ => ⟨fun c handle o holds => ?_, fun _ _ armed => ?_⟩
  · have known : w.contexts.has c := by
      by_cases known : w.contexts.has c
      · exact known
      · have member := holds.1
        rw [World.context, show w.unrecorded.contexts = w.contexts from rfl,
          Pool.get_of_not_has _ known] at member
        cases member
    have kept : (w.enlist s sink).context c = w.context c := Pool.get_add_of_has w.contexts _ known
    refine .inr (.inr ?_)
    rw [show (w.enlist s sink).unrecorded.context c = w.context c from kept]
    exact holds
  · exact .inr (.inr armed)

theorem retire {v : Recorded σ} {c : ContextId} {o : ObjectId} {k : Callback} {f : Frame}
    (accounted : IsTallied prior u w) (sound : w.Sound) (own : w.destructor? o = some k)
    (retires : w.Retires c o v) :
    IsTallied prior u ((v.pushFrame c f).note (.called (.destroyObject k c o))) := by
  obtain ⟨moments, journal, kept⟩ := accounted
  let m : Moment σ :=
    ⟨.called (.destroyObject k c o), w.embedder.running, (v.pushFrame c f).unrecorded⟩
  have marks := (retires.extends.trans (extends_pushFrame v c f)).unrecorded.finalized
  have called : Accounted u (moments ++ [m]) m.running m.world := kept.concat fun x late accounts =>
    (accounts.mono (List.subset_append_left _ _) (List.Subset.refl _)).trans
      (retires.accounts sound own ⟨m, List.mem_append_right _ List.mem_cons_self, c, rfl⟩) marks
  refine ⟨moments ++ [m], ?_, ?_⟩
  · show v.embedder.journal ++ [_] = _
    rw [retires.journal, journal, List.append_assoc]
    show _ ++ (_ ++ [(⟨_, v.embedder.running, _⟩ : Moment σ)]) = _
    rw [retires.running]
  · show Accounted u _ v.embedder.running _
    rw [retires.running]
    exact called

end IsTallied

end World

theorem Change.accounted {w w' : Recorded σ} (step : Change making w w') (sound : w.Sound)
    {prior : List (Moment σ)} {u : World σ} (accounted : World.IsTallied prior u w) :
    World.IsTallied prior u w' := by
  have marks := step.extends.finalized
  cases step with
  | surroundings | addFunction | shareFunction | addConstant | addModule | addScope | setDefaults
  | declareClass | declareFunction | declareConstant =>
    exact accounted.same rfl (fun _ => rfl) rfl rfl
  | setOwn => exact accounted.later rfl rfl marks fun _ => .of_same (fun _ => rfl) rfl rfl
  | addClass k =>
    exact accounted.later rfl rfl marks fun _ => World.Accounts.of_classes (v := w.unrecorded)
      fun _ _ => Classes.findDestructor_add w.classes k
  | addMethod k m asked =>
    exact accounted.later rfl rfl marks fun _ => .addMethod w.unrecorded k m fun _ => .of_head? asked
  | shareClass k s =>
    exact accounted.later rfl rfl marks fun _ => World.Accounts.of_classes (v := w.unrecorded)
      fun _ _ => Classes.findDestructor_modify w.classes k (f := fun e => { e with isStatic := true })
        (fun _ => rfl) fun _ => rfl
  | addObject o => exact accounted.later rfl rfl marks fun _ => .addObject w.unrecorded o
  | markFinalized o cause =>
    refine accounted.later rfl rfl marks fun _ => .markFinalized w.unrecorded o ?_
    exact cause.imp (.of_head? (o := .markFinalized o) · rfl) .inl
  | adjust c f adjusts =>
    exact accounted.updateContext c fun x => congrArg Context.Holdings.tracker (adjusts x).holdings
  | close c =>
    exact (accounted.updateContext c (f := fun x => { x with isClosed := true }) fun _ => rfl).same
      rfl (fun _ => rfl) rfl rfl
  | popCall c => exact accounted.popFrame c
  | pushCall c | assign c | remember c | loadClass c | cacheFunction c | insertFunction c
  | mergeFunctions c | cacheConstant c | insertConstant c | inherit c =>
    exact accounted.updateContext c fun _ => rfl
  | reclaim c handle cause =>
    refine accounted.later rfl rfl marks fun _ => .reclaim w.unrecorded c handle ?_
    exact cause.imp (.of_head? · rfl) fun spent o tracked =>
      spent o ((sound.contexts c).tracker.object?_iff.2 tracked)
  | drain c =>
    exact accounted.later rfl rfl marks fun _ => World.Accounts.of_tracker (v := w.unrecorded) c
      (f := Tracker.drain) fun _ _ retains => .inr (.inr (retains.drain (sound.contexts c).tracker))
  | track c o =>
    exact accounted.later rfl rfl marks fun _ => World.Accounts.of_tracker (v := w.unrecorded) c
      (f := fun t => (t.add o).2) fun _ _ retains =>
        .inr (.inr (retains.add (sound.contexts c).tracker o))
  | note event => exact accounted.note event

theorem Course.accounted {w w' : Recorded σ} (course : Course making w w') (sound : w.Sound)
    {prior : List (Moment σ)} {u : World σ} (accounted : World.IsTallied prior u w) :
    World.IsTallied prior u w' := by
  induction course with
  | still => exact accounted
  | change step => exact step.accounted sound accounted
  | trans first _ ih ih' => exact ih' (first.sound sound) (ih sound accounted)
  | operation o outcome inner _ _ ih =>
    exact (ih (sound.begin o) (accounted.begin o)).finish inner.running outcome
  | @frame _ w w' c f _ calls ih =>
    have pushed := accounted.updateContext c (f := (·.pushFrame f)) fun _ => rfl
    exact (ih (sound.pushFrame c calls.known) pushed).popFrame c
  | @autoload _ w w' c key _ _ _ _ ih =>
    have entered : World.IsTallied prior u (w.updateLoaders c (·.enter key)) :=
      accounted.updateContext c fun _ => rfl
    exact (ih (sound.updateLoaders c _) entered).updateContext c fun _ => rfl
  | destructor c o k f _ _ own retires _ calls ih =>
    exact (ih ((sound.destroying retires calls.known).note _)
      (accounted.retire sound own retires)).popFrame c
  | @hook _ w _ c k k' _ known _ _ outcome _ _ _ ih =>
    have inserted : World.IsTallied prior u (w.insertClass c k) :=
      accounted.updateContext c fun _ => rfl
    exact (ih ((sound.insertClass c k known).note _) (inserted.note _)).leaveHook c _ k' outcome
  | registration c m _ _ _ _ ih => exact (ih sound accounted).updateContext c fun _ => rfl
  | @attempt _ w _ c _ _ _ ih =>
    have locked : World.IsTallied prior u (w.setImporting (w.context c).scope true) :=
      accounted.same rfl (fun _ => rfl) rfl rfl
    exact (ih (sound.setImporting _ true) locked).same rfl (fun _ => rfl) rfl rfl
  | @loading _ w x v w' c source _ _ _ before event m _ _ ended ih ih' =>
    have locked : World.IsTallied prior u (w.setImporting (w.context c).scope true) :=
      accounted.same rfl (fun _ => rfl) rfl rfl
    have sound' := sound.setImporting (w.context c).scope true
    have loaded := ih' ((before.sound sound').note event) ((ih sound' locked).note event)
    have concluded : World.IsTallied prior u w' := loaded.same ended.embedder
      (fun d => by rw [World.context, ended.contexts]; rfl) ended.objects ended.classes
    exact concluded.same rfl (fun _ => rfl) rfl rfl
  | creation s sink known _ _ ih => exact ih (sound.enlist known sink) (accounted.enlist s sink)

end ScriptHost
