import ScriptHost.Proofs.Calls.Recollection
import ScriptHost.Proofs.Registry.Stability

set_option autoImplicit false

namespace ScriptHost

open Run

namespace LateBinding

variable {τ : Type}

namespace Afresh

variable (h : Host τ) (c : ContextId)

def staticClass : Run τ (Option ClassId) := do
  let some f := (← Run.context c).topFrame? | return none
  if f.declaring.isEmpty then return none
  match ← closure? f with
  | some this => classOfBound this
  | none => ClassRegistry.find h c f.called

def declaringClass (f : Frame) : Run τ (Option ClassId) := do
  let some k ← ClassRegistry.find h c f.declaring
    | Run.fail (.misuse (.unknownClass f.declaring))
  return some k

def currentClass : Run τ (Option ClassId) := do
  let some f := (← Run.context c).topFrame? | return none
  if f.declaring.isEmpty then return none
  declaringClass h c f

def fallbackClass : Run τ (Option ClassId) := do
  let some f := (← Run.context c).topFrame? | return none
  if f.static.isEmpty then return none
  ClassRegistry.find h c f.static

def magicClass (name : Bytes) : Run τ (Option ClassId) := do
  if name.lower = Bytes.ofString "self" then
    match ← currentClass h c with
    | some k => return some k
    | none => fallbackClass h c
  else if name.lower = Bytes.ofString "static" then staticClass h c
  else return none

def nearestClass : Run τ (Option ClassId) := do
  let frames := (← Run.context c).calls.toList.map (·.frame)
  let some f := frames.reverse.find? (!·.declaring.isEmpty) | return none
  match ← closure? f with
  | some this => classOfBound this
  | none => declaringClass h c f

end Afresh

end LateBinding

def Activation.forgetful (a : Activation) : Activation :=
  { a with declaringClass := none, staticClass := none }

def World.forget {τ : Type} (w : World τ) (c : ContextId) : World τ :=
  w.updateContext c fun x => { x with calls := x.calls.mapFrames Activation.forgetful }

theorem CallStack.mapFrames_mapFrames {α : Type} (s : CallStack α) (f g : α → α) :
    (s.mapFrames f).mapFrames g = s.mapFrames fun a => g (f a) := by
  simp [mapFrames, Function.comp_def]

theorem World.forget_remember {τ : Type} (w : World τ) (c : ContextId) (serial : Nat)
    {f : Activation → Activation} (same : ∀ a, (f a).forgetful = a.forgetful) :
    (w.updateContext c (·.remember serial f)).forget c = w.forget c := by
  rw [forget, updateContext_updateContext]
  refine congrArg (w.updateContext c) (funext fun x => ?_)
  simp only [Context.remember, CallStack.mapFrames_mapFrames, apply_ite Activation.forgetful, same,
    ite_self]

namespace LateBinding

variable {τ α β : Type} {h : Host τ} {c : ContextId} {w : World τ}

structure Agrees (c : ContextId) (m m' : Run τ α) (w : World τ) : Prop where
  outcome : (m w).1 = (m' w).1
  world : (m w).2.forget c = (m' w).2.forget c

namespace Agrees

theorem refl (m : Run τ α) (w : World τ) : Agrees c m m w := ⟨rfl, rfl⟩

theorem of_eq {m m' : Run τ α} (same : m w = m' w) : Agrees c m m' w :=
  ⟨congrArg Prod.fst same, congrArg Prod.snd same ▸ rfl⟩

theorem congr {m m' n n' : Run τ α} (agrees : Agrees c n n' w) (left : m w = n w)
    (right : m' w = n' w) : Agrees c m m' w := by
  obtain ⟨outcome, world⟩ := agrees
  rw [← left, ← right] at outcome world
  exact ⟨outcome, world⟩

theorem bind {m : Run τ α} {f g : α → Run τ β}
    (rest : ∀ a v, m w = (.ok a, v) → Agrees c (f a) (g a) v) :
    Agrees c (m >>= f) (m >>= g) w := by
  rcases first : m w with ⟨signal | a, v⟩
  · exact .of_eq (by rw [bind_apply, bind_apply, first])
  · obtain ⟨outcome, world⟩ := rest a v first
    constructor <;> rw [bind_ok first, bind_ok first] <;> assumption

end Agrees

theorem bind_of_found {m : Run τ (Option α)} {f : Option α → Run τ (Option α)}
    (passes : ∀ k, f (some k) = pure (some k)) (found : (m w).1 ≠ .ok none) :
    (m >>= f) w = m w := by
  rw [bind_apply]
  rcases result : m w with ⟨signal | _ | k, v⟩
  · rfl
  · exact absurd (congrArg Prod.fst result) found
  · exact congrFun (passes k) v

theorem closure?_of_isUnbound {f : Frame} (unbound : f.IsUnbound w) :
    closure? f w = (.ok none, w) := by
  unfold closure?
  cases self : f.self with
  | none => rfl
  | some o =>
    dsimp only
    rw [bind_ok (objectOf_apply w o), unbound o self]
    rfl

theorem Agrees.remembering {m : Run τ α} {serial : Nat} {f : α → Activation → Activation}
    (same : ∀ k a, (f k a).forgetful = a.forgetful) :
    Agrees c (do
      let k ← m
      modifyContext c (·.remember serial (f k))
      return k) m w := by
  rcases found : m w with ⟨signal | k, v⟩
  · exact .of_eq (by rw [bind_apply, found])
  · refine ⟨?_, ?_⟩ <;> rw [bind_ok found, bind_ok (modifyContext_apply ..), found]
    · rfl
    · exact v.forget_remember c serial (same k)

section Resolvers

variable {a : Activation}

theorem resolveDeclaring_agrees (recalls : w.Recalls c (fun _ => True) a) :
    Agrees c (resolveDeclaring h c a) (Afresh.declaringClass h c a.frame) w := by
  unfold resolveDeclaring Afresh.declaringClass
  cases remembered : a.declaringClass with
  | some k =>
    have found := ClassRegistry.find_loaded h c w (recalls.declaring k remembered trivial)
    refine .of_eq ?_
    rw [bind_ok found]
    rfl
  | none =>
    refine .bind fun k v found => ?_
    cases k with
    | none => exact .refl _ _
    | some k => exact ⟨rfl, v.forget_remember c a.serial fun _ => rfl⟩

theorem staticClass_agrees
    (recalls : ∀ a ∈ (w.context c).calls.toList, w.Recalls c (fun _ => True) a) :
    Agrees c (staticClass h c) (Afresh.staticClass h c) w := by
  unfold staticClass Afresh.staticClass Context.topFrame?
  refine .congr ?_ (bind_ok (context_apply w c)) (bind_ok (context_apply w c))
  cases top : (w.context c).calls.top with
  | none => exact .refl _ _
  | some a =>
    dsimp only [Option.map_some]
    split
    next => exact .refl _ _
    next declared =>
      have recalls := recalls a (CallStack.mem_peek top)
      cases remembered : a.staticClass with
      | some k =>
        -- a call that remembers a class for `static` is no bound closure
        have unbound := recalls.unbound (remembered ▸ rfl) fun none => declared (none ▸ rfl)
        have found := ClassRegistry.find_loaded h c w (recalls.static k remembered trivial)
        refine .of_eq ?_
        rw [bind_ok (closure?_of_isUnbound unbound)]
        exact found.symm
      | none =>
        refine .bind fun this v _ => ?_
        cases this with
        | some this => exact .refl _ _
        | none => exact .remembering fun _ _ => rfl

theorem currentClass_agrees
    (recalls : ∀ a ∈ (w.context c).calls.toList, w.Recalls c (fun _ => True) a) :
    Agrees c (currentClass h c) (Afresh.currentClass h c) w := by
  unfold currentClass Afresh.currentClass Context.topFrame?
  refine .congr ?_ (bind_ok (context_apply w c)) (bind_ok (context_apply w c))
  cases top : (w.context c).calls.top with
  | none => exact .refl _ _
  | some a =>
    dsimp only [Option.map_some]
    split
    next => exact .refl _ _
    next => exact resolveDeclaring_agrees (recalls a (CallStack.mem_peek top))

theorem fallbackClass_agrees
    (recalls : ∀ a ∈ (w.context c).calls.toList, w.Recalls c (fun _ => True) a) :
    Agrees c (fallbackClass h c) (Afresh.fallbackClass h c) w := by
  unfold fallbackClass Afresh.fallbackClass Context.topFrame?
  refine .congr ?_ (bind_ok (context_apply w c)) (bind_ok (context_apply w c))
  cases top : (w.context c).calls.top with
  | none => exact .refl _ _
  | some a =>
    dsimp only [Option.map_some]
    split
    next => exact .refl _ _
    next named =>
      -- a class that is remembered here stands for `static`, and the name is the same
      have called : a.frame.called = a.frame.static := if_neg named
      have recalls := recalls a (CallStack.mem_peek top)
      cases remembered : a.staticClass with
      | some k =>
        have holds := recalls.static k remembered trivial
        rw [called] at holds
        exact .of_eq (ClassRegistry.find_loaded h c w holds).symm
      | none => exact .remembering fun _ _ => rfl

theorem Afresh.currentClass_none
    (undeclared : ∀ a, (w.context c).calls.top = some a → a.frame.declaring = []) :
    Afresh.currentClass h c w = (.ok none, w) := by
  unfold Afresh.currentClass Context.topFrame?
  rw [bind_ok (context_apply w c)]
  cases top : (w.context c).calls.top with
  | none => rfl
  | some a =>
    dsimp only [Option.map_some]
    rw [undeclared a top]
    rfl

theorem magicClass_agrees (name : Bytes)
    (recalls : ∀ a ∈ (w.context c).calls.toList, w.Recalls c (fun _ => True) a) :
    Agrees c (magicClass h c name) (Afresh.magicClass h c name) w := by
  have current := currentClass_agrees (h := h) recalls
  unfold magicClass Afresh.magicClass
  split
  next =>
    by_cases found : (currentClass h c w).1 = .ok none
    next =>
      -- only a call without declaring class has none, and then nothing has been remembered either
      have none : currentClass h c w = (.ok none, (currentClass h c w).2) := Prod.ext found rfl
      obtain ⟨same, undeclared⟩ := currentClass_none none
      rw [same] at none
      exact (fallbackClass_agrees recalls).congr (bind_ok none)
        (bind_ok (Afresh.currentClass_none undeclared))
    next =>
      exact current.congr (bind_of_found (fun _ => rfl) found)
        (bind_of_found (fun _ => rfl) (current.outcome ▸ found))
  split
  next => exact staticClass_agrees recalls
  next => exact .refl _ _

theorem nearestClass_agrees
    (recalls : ∀ a ∈ (w.context c).calls.toList, w.Recalls c (fun _ => True) a) :
    Agrees c (nearestClass h c) (Afresh.nearestClass h c) w := by
  unfold nearestClass Afresh.nearestClass
  refine .congr ?_ (bind_ok (context_apply w c)) (bind_ok (context_apply w c))
  rw [← List.map_reverse, List.find?_map]
  cases nearest : (w.context c).calls.toList.reverse.find? (!·.frame.declaring.isEmpty) with
  | none => exact .of_eq (by simp [Function.comp_def, nearest])
  | some a =>
    have there : a ∈ (w.context c).calls.toList :=
      List.mem_reverse.1 (List.mem_of_find?_eq_some nearest)
    simp only [Function.comp_def, nearest, Option.map_some]
    obtain ⟨same, -⟩ | ⟨this, same⟩ := closure?_apply a.frame w
    · exact (resolveDeclaring_agrees (recalls a there)).congr (bind_ok same) (bind_ok same)
    · exact (Agrees.refl (classOfBound this) w).congr (bind_ok same) (bind_ok same)

end Resolvers

structure BindsAfresh (h : Host τ) (c : ContextId) (w : World τ) : Prop where
  staticClass : Agrees c (staticClass h c) (Afresh.staticClass h c) w
  currentClass : Agrees c (currentClass h c) (Afresh.currentClass h c) w
  magicClass : ∀ name, Agrees c (magicClass h c name) (Afresh.magicClass h c name) w
  nearestClass : Agrees c (nearestClass h c) (Afresh.nearestClass h c) w

theorem bindsAfresh (recalls : ∀ a ∈ (w.context c).calls.toList, w.Recalls c (fun _ => True) a) :
    BindsAfresh h c w :=
  ⟨staticClass_agrees recalls, currentClass_agrees recalls, fun name =>
    magicClass_agrees name recalls, nearestClass_agrees recalls⟩

end LateBinding

/-- Once a context is returned, whoever asks for the class of a call gets what the class name of the
call resolves to at that time, whatever has been asked before; and to ask changes no more than to
look for the class does. Every request starts in the world of some moment, but for the own state of
the embedder. In a child, the classes that calls remember when it is returned have to be right by
then; a context without parent has such calls only. -/
theorem Script.binding_afresh {σ ρ : Type} (s : Script σ) (depth : Nat) (code : Code σ ρ)
    (files : FileTree) (own : σ)
    (orderly : ∀ m ∈ s.journal depth code files own,
      m.event.isRefusal = false ∧ ∀ e ∈ m.world.classes.entries, e.name.head? ≠ some 0x5c)
    {before after : List (Moment σ)} {made : Moment σ} {c : ContextId}
    (journal : s.journal depth code files own = before ++ made :: after)
    (released : made.Releases c) :
    ∀ m ∈ made :: after, ∀ (h : Host (Ledger σ)) (w : Recorded σ) (own' : σ),
      w.unrecorded = { m.world with embedder := own' } → LateBinding.BindsAfresh h c w := by
  have truthful := (s.course depth code files own).truthful (c := c) (World.start_sound files own)
    (List.forall_mem_nil _) (List.forall_mem_nil _) (.start files own)
  intro m member h w own' same
  obtain ⟨first, rest, split⟩ := List.append_of_mem member
  have whole : s.journal depth code files own = (before ++ first) ++ m :: rest := by
    rw [List.append_assoc, ← split]
    exact journal
  -- `m` is that moment or a later one, and the invariant speaks of worlds in which it is on record
  have earlier : made ∈ (before ++ first) ++ [m] := by
    cases first <;> cases split <;> simp
  have mindful := truthful.kept.resolve_left id (before ++ first) m rest whole
    ⟨made, earlier, released⟩
  have stays (k : ClassId) : (m.recall (before ++ first ++ [m])).Retains k := by
    refine ⟨fun e there => (orderly e ?_).1, ?_⟩
    · rw [whole, List.append_cons]
      exact List.mem_append_left _ there
    · exact Pool.get_of_all (P := fun e : Class => e.name.head? ≠ some 0x5c)
        (orderly m (whole ▸ by simp)).2 (by decide) k
  have contexts : w.contexts = m.world.contexts := congrArg World.contexts same
  have objects : w.objects = m.world.objects := congrArg World.objects same
  refine LateBinding.bindsAfresh fun a there => ?_
  rw [World.context, contexts] at there
  exact ((mindful a there).mono fun k _ => stays k).of_same contexts objects

def recalling : List (Moment Unit) :=
  Script.journal ⟨1, fun _ => .done (.error .exhausted)⟩ 1
    (.each () (oneContext ++ [newPlainClass "foo", .act ⟨0⟩ (.registerClass ⟨0⟩), .newChild ⟨0⟩ {},
      .act ⟨1⟩ (.pushCall { declaring := "foo" }), .act ⟨1⟩ .staticClass, .act ⟨1⟩ .currentClass]))
    (FileTree.make "/") ()

theorem binding_afresh_child :
    (∀ m ∈ recalling,
      m.event.isRefusal = false ∧ ∀ e ∈ m.world.classes.entries, e.name.head? ≠ some 0x5c) ∧
    (∃ made, recalling = recalling.take 6 ++ made :: recalling.drop 7 ∧ made.Releases ⟨1⟩) ∧
    (∃ m ∈ recalling.drop 7, ∃ a ∈ (m.world.context ⟨1⟩).calls.toList,
      a.memory = (some ⟨0⟩, some ⟨0⟩)) ∧
    ∀ m ∈ recalling.drop 7, ∀ (h : Host (Ledger Unit)) (w : Recorded Unit),
      w.unrecorded = m.world → LateBinding.BindsAfresh h ⟨1⟩ w := by
  obtain ⟨orderly, there, remembers⟩ : (∀ m ∈ recalling, m.event.isRefusal = false ∧
        ∀ e ∈ m.world.classes.entries, e.name.head? ≠ some 0x5c) ∧
      (recalling[6]?.any fun m => m.event.returned = some (⟨1⟩ : ContextId) ∧
        (m.world.context ⟨1⟩).calls.toList.isEmpty) ∧
      ∃ m ∈ recalling.drop 7, ∃ a ∈ (m.world.context ⟨1⟩).calls.toList,
        a.memory = (some ⟨0⟩, some ⟨0⟩) := by
    decide +kernel
  obtain ⟨made, here, journal⟩ := split_at there
  obtain ⟨returned, idle⟩ := of_decide_eq_true here
  have released : made.Releases ⟨1⟩ :=
    ⟨returned, fun _ a member => by rw [List.isEmpty_iff.1 idle] at member; cases member⟩
  refine ⟨orderly, ⟨made, journal, released⟩, remembers, fun m member h w same => ?_⟩
  exact Script.binding_afresh _ _ _ _ _ orderly journal released m (List.mem_cons_of_mem _ member)
    h w m.world.embedder same

def intruder : Script Unit where
  patience := 1
  code
    | .loadExtension _ c => .look fun w => .each () [
        .newClass { Class.make "foo" none with isStatic := false },
        .act c (.registerClass w.classes.next), .act c (.pushCall { declaring := "foo" }),
        .act c .currentClass]
    | _ => .done (.error .exhausted)

def intrusion : List (Moment Unit) :=
  intruder.journal 1
    (.each () [.newAllocator, .newScope { ids := ⟨0⟩, extensions := [⟨0⟩] }, .newSink {},
      .newContext ⟨0⟩ ⟨0⟩ {}, .newChild ⟨0⟩ {}])
    (FileTree.make "/") ()

theorem binding_stale_child :
    (∀ m ∈ intrusion,
      m.event.isRefusal = false ∧ ∀ e ∈ m.world.classes.entries, e.name.head? ≠ some 0x5c) ∧
    ∃ made ∈ intrusion, made.event.returned = some (⟨1⟩ : ContextId) ∧
      (LateBinding.currentClass .idle ⟨1⟩ made.world.recorded).1 = .ok (some ⟨1⟩) ∧
      (LateBinding.Afresh.currentClass .idle ⟨1⟩ made.world.recorded).1 = .ok (some ⟨0⟩) := by
  obtain ⟨orderly, made, member, returned, remembered, found⟩ : (∀ m ∈ intrusion,
        m.event.isRefusal = false ∧ ∀ e ∈ m.world.classes.entries, e.name.head? ≠ some 0x5c) ∧
      ∃ made ∈ intrusion, made.event.returned = some (⟨1⟩ : ContextId) ∧
        (LateBinding.currentClass .idle ⟨1⟩ made.world.recorded).1.toOption = some (some ⟨1⟩) ∧
        (LateBinding.Afresh.currentClass .idle ⟨1⟩ made.world.recorded).1.toOption =
          some (some ⟨0⟩) := by
    decide +kernel
  exact ⟨orderly, made, member, returned, eq_ok_of_toOption remembered, eq_ok_of_toOption found⟩

end ScriptHost
