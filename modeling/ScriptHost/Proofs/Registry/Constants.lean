import ScriptHost.Proofs.Calls.Balance
import ScriptHost.Proofs.Registry.Stability

set_option autoImplicit false

namespace ScriptHost

open Run

variable {σ τ : Type} {w : World τ} {c : ContextId} {n m : Bytes}

namespace ConstantSet

structure Hides (own shared : ConstantSet) (n m : Bytes) : Prop where
  spelling : n.lower = m.lower
  absent : own.find? n = none
  unread : own.exact.get? m = none
  inexact : shared.exact.get? n = none
  folded : (shared.folded.get? n.lower).isSome
  exact : (shared.exact.get? m).isSome

instance (own shared : ConstantSet) (n m : Bytes) : Decidable (own.Hides shared n m) :=
  decidable_of_iff (_ ∧ _ ∧ _ ∧ _ ∧ _ ∧ _)
    ⟨fun ⟨spelling, absent, unread, inexact, folded, exact⟩ =>
        ⟨spelling, absent, unread, inexact, folded, exact⟩,
      fun ⟨spelling, absent, unread, inexact, folded, exact⟩ =>
        ⟨spelling, absent, unread, inexact, folded, exact⟩⟩

def resolve (own shared : ConstantSet) (name : Bytes) : Option ConstantId :=
  (own.find? name).or (shared.find? name)

variable {own shared : ConstantSet} {e : Constant} {k : ConstantId}

theorem exact_add_none {name : Bytes} (unread : (own.add e k).exact.get? name = none) :
    own.exact.get? name = none := by
  unfold add at unread
  split at unread
  next => grind
  next => exact unread

theorem find?_add_none {name : Bytes} (absent : (own.add e k).find? name = none) :
    own.find? name = none := by
  have unread : (own.add e k).exact.get? name = none := by
    unfold find? at absent
    split at absent
    next => cases absent
    next unread => exact unread
  have before := exact_add_none unread
  simp only [find?, unread, before] at absent ⊢
  unfold add at absent
  split at absent
  next => exact absent
  next => grind

theorem Hides.of_add (hides : (own.add e k).Hides shared n m) : own.Hides shared n m :=
  { hides with absent := find?_add_none hides.absent, unread := exact_add_none hides.unread }

theorem resolve_add_exact (sensitive : e.isCaseSensitive) (absent : own.find? e.name = none)
    (found : shared.find? e.name = some k) (name : Bytes) :
    (own.add e k).resolve shared name = own.resolve shared name := by
  by_cases same : name = e.name
  · subst same
    rw [resolve, find?_add_self k absent (by rw [if_pos sensitive]), resolve, absent, found]
    rfl
  · simp [resolve, add, sensitive, find?, same]

theorem folded_of_absent {name : Bytes} (absent : own.find? name = none) :
    own.folded.get? name.lower = none := by
  unfold find? at absent
  split at absent
  next => cases absent
  next => exact absent

theorem resolve_add_folded (insensitive : e.isCaseSensitive = false) (name : Bytes) :
    (own.add e k).resolve shared name =
      if name.lower = e.lowerName ∧ own.exact.get? name = none then some k
      else own.resolve shared name := by
  by_cases held : own.exact.get? name = none
  · by_cases same : name.lower = e.lowerName
    · simp [resolve, add, insensitive, find?, held, same]
    · simp [resolve, add, insensitive, find?, held, same]
  · obtain ⟨d, there⟩ := Option.ne_none_iff_exists'.1 held
    simp [resolve, add, insensitive, find?, there]

end ConstantSet

theorem Declarations.IsSound.constant_cases {d : Declarations} (sound : d.IsSound w) {name : Bytes}
    {k : ConstantId} (found : d.constants.find? name = some k) :
    ((w.constants.get k).isCaseSensitive ∧ (w.constants.get k).name = name) ∨
    ((w.constants.get k).isCaseSensitive = false ∧ (w.constants.get k).lowerName = name.lower ∧
      d.constants.exact.get? name = none ∧ d.constants.folded.get? name.lower = some k) := by
  unfold ConstantSet.find? at found
  split at found
  next there =>
    cases found
    exact .inl (sound.exact _ _ there).2
  next missing =>
    obtain ⟨-, insensitive, own⟩ := sound.folded _ _ found
    exact .inr ⟨insensitive, own, missing, found⟩

namespace World

def constantAt (w : World τ) (c : ContextId) (name : Bytes) : Option ConstantId :=
  (w.context c).constants.resolve (w.scopeOf c).constants (withoutSeparator name)

def readConstant (w : World τ) (c : ContextId) (name : Bytes) : World τ :=
  (ConstantRegistry.find c name w).2

def Hides (w : World τ) (c : ContextId) (n m : Bytes) : Prop :=
  (w.context c).constants.Hides (w.scopeOf c).constants (withoutSeparator n) (withoutSeparator m)

instance (w : World τ) (c : ContextId) (n m : Bytes) : Decidable (w.Hides c n m) :=
  inferInstanceAs (Decidable (ConstantSet.Hides _ _ _ _))

theorem readConstant_cases (w : World τ) (c : ContextId) (name : Bytes) :
    (((w.context c).constants.find? (withoutSeparator name)).isSome ∨ w.constantAt c name = none) ∧
      w.readConstant c name = w ∨
    ∃ k, (w.context c).constants.find? (withoutSeparator name) = none ∧
      (w.scopeOf c).constants.find? (withoutSeparator name) = some k ∧
      w.readConstant c name = w.updateContext c fun x =>
        { x with constants := x.constants.add (w.constants.get k) k } := by
  unfold readConstant constantAt ConstantSet.resolve
  obtain ⟨k, loaded, same⟩ | ⟨absent, nowhere, same⟩ | ⟨k, absent, shared, same⟩ :=
    ConstantRegistry.find_cases c name w
  · exact .inl ⟨.inl (by rw [loaded]; rfl), congrArg Prod.snd same⟩
  · exact .inl ⟨.inr (by rw [absent, nowhere]; rfl), congrArg Prod.snd same⟩
  · exact .inr ⟨k, absent, shared, congrArg Prod.snd same⟩

theorem readConstant_of_undefined {name : Bytes} (undefined : w.constantAt c name = none) :
    w.readConstant c name = w := by
  obtain ⟨-, same⟩ | ⟨k, absent, shared, -⟩ := w.readConstant_cases c name
  · exact same
  · simp [constantAt, ConstantSet.resolve, absent, shared] at undefined

theorem Sound.readConstant (sound : w.Sound) (c : ContextId) (name : Bytes) :
    (w.readConstant c name).Sound := by
  obtain ⟨-, same⟩ | ⟨k, -, shared, same⟩ := w.readConstant_cases c name
  · rwa [same]
  · have known := ((sound.scopes _).find_constant shared).1
    rw [same]
    exact sound.updateContext c _
      (.updateContext w c _ (.of_same rfl rfl rfl rfl rfl rfl))
      fun there => { there with declarations := there.declarations.addConstant k known }

theorem has_readConstant (w : World τ) (c d : ContextId) (name : Bytes) :
    (w.readConstant c name).contexts.has d = w.contexts.has d := by
  obtain ⟨-, same⟩ | ⟨_, -, -, same⟩ := w.readConstant_cases c name <;> rw [same]
  exact Pool.has_modify ..

theorem Hides.of_readConstant {name : Bytes} (hides : (w.readConstant c name).Hides c n m) :
    w.Hides c n m := by
  obtain ⟨-, same⟩ | ⟨k, -, -, same⟩ := w.readConstant_cases c name
  · rwa [same] at hides
  · rw [Hides, same] at hides
    unfold Hides
    rw [scopeOf, context_updateContext] at hides
    split at hides
    next => exact ConstantSet.Hides.of_add hides
    next => exact hides

theorem Hides.constantAt_eq (hides : w.Hides c n m) :
    w.constantAt c n = (w.scopeOf c).constants.folded.get? (withoutSeparator n).lower := by
  rw [constantAt, ConstantSet.resolve, hides.absent, ConstantSet.find?, hides.inexact]
  rfl

theorem Hides.constantAt_ne (hides : w.Hides c n m) (sound : w.Sound) :
    w.constantAt c n ≠ w.constantAt c m := by
  obtain ⟨k, folded⟩ := Option.isSome_iff_exists.1 hides.folded
  obtain ⟨d, exact⟩ := Option.isSome_iff_exists.1 hides.exact
  have meant : w.constantAt c m = some d := by
    have unfolded := hides.spelling ▸ ConstantSet.folded_of_absent hides.absent
    simp [constantAt, ConstantSet.resolve, ConstantSet.find?, hides.unread, unfolded, exact]
  rw [hides.constantAt_eq, folded, meant]
  rintro ⟨⟩
  have insensitive := ((sound.scopes _).folded _ _ folded).2.1
  have sensitive := ((sound.scopes _).exact _ _ exact).2.1
  cases insensitive.symm.trans sensitive

theorem constantAt_readConstant (sound : w.Sound) (known : w.contexts.has c) (n m : Bytes) :
    (w.readConstant c n).constantAt c m =
      if w.Hides c n m then w.constantAt c n else w.constantAt c m := by
  obtain ⟨apart, same⟩ | ⟨k, absent, shared, same⟩ := w.readConstant_cases c n
  · have visible : ¬ w.Hides c n m := fun hides => by
      obtain there | nowhere := apart
      · simp [hides.absent] at there
      · have folded := hides.folded
        rw [← hides.constantAt_eq, nowhere] at folded
        cases folded
    rw [same, if_neg visible]
  · have kept : (w.readConstant c n).constantAt c m =
        ((w.context c).constants.add (w.constants.get k) k).resolve (w.scopeOf c).constants
          (withoutSeparator m) := by
      rw [same, constantAt, scopeOf, context_updateContext, if_pos ⟨rfl, known⟩]
      rfl
    rw [kept]
    obtain ⟨sensitive, own⟩ | ⟨insensitive, own, missing, found⟩ :=
      (sound.scopes _).constant_cases shared
    -- a case-sensitive constant is kept under the name that has been read
    · have visible : ¬ w.Hides c n m := fun hides => by
        obtain ⟨d, folded⟩ := Option.isSome_iff_exists.1 hides.folded
        have meant := hides.constantAt_eq
        rw [constantAt, ConstantSet.resolve, absent, shared, folded] at meant
        cases meant
        exact Bool.false_ne_true (((sound.scopes _).folded _ _ folded).2.1.symm.trans sensitive)
      rw [if_neg visible]
      exact ConstantSet.resolve_add_exact sensitive (own ▸ absent) (own ▸ shared) _
    -- any other one answers to every spelling
    · have meant : w.constantAt c n = some k := by
        rw [constantAt, ConstantSet.resolve, absent, shared]
        rfl
      rw [ConstantSet.resolve_add_folded insensitive, own]
      by_cases hides : w.Hides c n m
      · rw [if_pos hides, if_pos ⟨hides.spelling.symm, hides.unread⟩, meant]
      rw [if_neg hides]
      split
      next both =>
        obtain ⟨spelling, unread⟩ := both
        have unfolded := ConstantSet.folded_of_absent absent
        have folded :
            (w.scopeOf c).constants.folded.get? (withoutSeparator n).lower = some k := found
        have inexact : (w.scopeOf c).constants.exact.get? (withoutSeparator m) = none :=
          Option.not_isSome_iff_eq_none.1 fun exact =>
            hides ⟨spelling.symm, absent, unread, missing, Option.isSome_of_eq_some found, exact⟩
        simp [constantAt, ConstantSet.resolve, ConstantSet.find?, unread, unfolded, inexact,
          spelling, folded]
      next => rfl

end World

namespace ConstantRegistry

theorem find_apply (c : ContextId) (name : Bytes) (w : World τ) :
    find c name w = (.ok (w.constantAt c name), w.readConstant c name) := by
  unfold World.readConstant World.constantAt ConstantSet.resolve
  obtain ⟨k, loaded, same⟩ | ⟨absent, nowhere, same⟩ | ⟨k, absent, shared, same⟩ :=
    find_cases c name w
  · rw [same, loaded]
    rfl
  · rw [same, absent, nowhere]
    rfl
  · rw [same, absent, shared]
    rfl

def undefinedNotice (h : Host τ) (c : ContextId) (name : Bytes) (trace : Trace) : Run τ Unit :=
  Diagnostics.notice h c trace ("Use of undefined constant " ++ name.afterLast 0x5c ++
    " - assumed '" ++ name.afterLast 0x5c ++ "'")

theorem fetch_apply (c : ContextId) (name : Bytes) (w : World τ) :
    fetch c name w = (.ok ((w.constantAt c name).map fun k => (w.constants.get k).value),
      w.readConstant c name) := by
  have kept : (w.readConstant c name).constants = w.constants := by
    obtain ⟨-, same⟩ | ⟨_, -, -, same⟩ := w.readConstant_cases c name <;> rw [same]
    rfl
  rw [fetch, bind_ok (find_apply c name w)]
  cases w.constantAt c name with
  | none => rfl
  | some k =>
    dsimp only
    rw [bind_ok (constantOf_apply _ k), kept]
    rfl

theorem fetchOrName_undefined (h : Host τ) {name : Bytes} (trace : Trace)
    (undefined : w.constantAt c name = none) :
    fetchOrName h c name trace w = (undefinedNotice h c name trace >>= fun _ =>
      pure (.text (name.afterLast 0x5c))) w := by
  rw [fetchOrName, bind_ok (fetch_apply c name w), undefined,
    World.readConstant_of_undefined undefined]
  rfl

theorem fetchOrName_defined (h : Host τ) {name : Bytes} (trace : Trace) {k : ConstantId}
    (defined : w.constantAt c name = some k) :
    fetchOrName h c name trace w = (.ok (w.constants.get k).value, w.readConstant c name) := by
  rw [fetchOrName, bind_ok (fetch_apply c name w), defined]
  rfl

theorem mapM_find (sound : w.Sound) (known : w.contexts.has c) (names : List Bytes)
    (visible : names.Pairwise fun n m => ¬ w.Hides c n m) :
    (names.mapM (find c) w).1 = .ok (names.map (w.constantAt c)) := by
  induction names generalizing w with
  | nil => rfl
  | cons n rest ih =>
    obtain ⟨first, others⟩ := List.pairwise_cons.1 visible
    have kept : rest.map ((w.readConstant c n).constantAt c) = rest.map (w.constantAt c) :=
      List.map_congr_left fun m member => by
        rw [World.constantAt_readConstant sound known, if_neg (first m member)]
    have later := ih (sound.readConstant c n) ((w.has_readConstant c c n).trans known)
      (others.imp fun apart hides => apart hides.of_readConstant)
    rw [List.mapM_cons, bind_ok (find_apply c n w), bind_apply]
    rcases read : rest.mapM (find c) (w.readConstant c n) with ⟨outcome, v⟩
    rw [read, kept] at later
    cases later
    rfl

end ConstantRegistry

def Action.reads : Action → Option Bytes
  | findConstant name | fetchConstant name | constantOrName name _ => some name
  | _ => none

theorem Action.perform_reads (h : Host τ) {a : Action} {name : Bytes} (reads : a.reads = some name)
    (defined : (w.constantAt c name).isSome) : (a.perform h c w).2 = w.readConstant c name := by
  obtain ⟨k, meant⟩ := Option.isSome_iff_exists.1 defined
  cases a with
  | findConstant =>
    cases reads
    rw [perform, ConstantRegistry.find_apply]
  | fetchConstant =>
    cases reads
    rw [perform, ConstantRegistry.fetch_apply]
  | constantOrName _ trace =>
    cases reads
    rw [perform, ConstantRegistry.fetchOrName_defined h trace meant]
  | _ => cases reads

/-- To read a constant of a context changes what another name stands for there just when it hides
it: the scope has a constant of the same spelling with exactly that name, and another one for any
spelling, and the context has kept neither. An undefined constant changes nothing but by its notice.
Names that do not hide each other are read as they are. -/
theorem Script.constants_read {ρ : Type} (s : Script σ) (depth : Nat) (code : Code σ ρ)
    (files : FileTree) (own : σ) {e : Moment σ} (member : e ∈ s.journal depth code files own)
    {w : Recorded σ} (same : w.unrecorded = e.world) {c : ContextId} (known : w.contexts.has c)
    (h : Host (Ledger σ)) :
    (∀ n, ConstantRegistry.find c n w = (.ok (w.constantAt c n), w.readConstant c n)) ∧
    (∀ n (a : Action), a.reads = some n → (w.constantAt c n).isSome →
      (a.perform h c w).2 = w.readConstant c n) ∧
    (∀ n, w.constantAt c n = none → w.readConstant c n = w ∧
      ConstantRegistry.fetch c n w = (.ok none, w) ∧
      ∀ trace, ConstantRegistry.fetchOrName h c n trace w =
        (ConstantRegistry.undefinedNotice h c n trace >>= fun _ =>
          pure (.text (n.afterLast 0x5c))) w) ∧
    (∀ n m, (w.readConstant c n).constantAt c m =
      if w.Hides c n m then w.constantAt c n else w.constantAt c m) ∧
    (∀ n m, w.Hides c n m → w.constantAt c n ≠ w.constantAt c m) ∧
    ∀ names : List Bytes, names.Pairwise (fun n m => ¬ w.Hides c n m) →
      (names.mapM (ConstantRegistry.find c) w).1 = .ok (names.map (w.constantAt c)) := by
  have sound : w.Sound := .of_unrecorded (same ▸ (Script.regular_of_journal member).sound)
  refine ⟨fun n => ConstantRegistry.find_apply c n w, fun n a => Action.perform_reads h,
    fun n undefined => ⟨World.readConstant_of_undefined undefined, ?_, fun trace =>
      ConstantRegistry.fetchOrName_undefined h trace undefined⟩,
    World.constantAt_readConstant sound known, fun n m hides => hides.constantAt_ne sound,
    ConstantRegistry.mapM_find sound known⟩
  rw [ConstantRegistry.fetch_apply, undefined, World.readConstant_of_undefined undefined]
  rfl

def mixedConstants : List (Moment Unit) :=
  Script.journal ⟨1, fun _ => .done (.error .exhausted)⟩ 1
    (.each () (oneContext ++ [.newConstant ⟨"FOO", .bool true, true, {}⟩, .declareConstant ⟨0⟩ ⟨0⟩,
      .newConstant ⟨"foo", .bool false, false, {}⟩, .declareConstant ⟨0⟩ ⟨1⟩]))
    (FileTree.make "/") ()

theorem constants_read_exact_first : ∃ e ∈ mixedConstants, e.world.contexts.has ⟨0⟩ ∧
    (([("FOO" : Bytes), "foo"].mapM (ConstantRegistry.find ⟨0⟩)) e.world.recorded).1 =
      .ok [some ⟨0⟩, some ⟨1⟩] := by
  obtain ⟨e, member, known, visible, meant⟩ : ∃ e ∈ mixedConstants, e.world.contexts.has ⟨0⟩ ∧
      [("FOO" : Bytes), "foo"].Pairwise (fun n m => ¬ e.world.recorded.Hides ⟨0⟩ n m) ∧
      [("FOO" : Bytes), "foo"].map (e.world.recorded.constantAt ⟨0⟩) = [some ⟨0⟩, some ⟨1⟩] := by
    decide +kernel
  obtain ⟨-, -, -, -, -, reads⟩ :=
    Script.constants_read _ _ _ _ _ member (w := e.world.recorded) rfl known .idle
  exact ⟨e, member, known, meant ▸ reads _ visible⟩

theorem constant_hidden_by_reading : ∃ e ∈ mixedConstants, ∃ w k d,
    ConstantRegistry.find ⟨0⟩ "foo" e.world = (.ok (some d), w) ∧
    (ConstantRegistry.find ⟨0⟩ "FOO" e.world).1 = .ok (some k) ∧
    (ConstantRegistry.find ⟨0⟩ "FOO" w).1 = .ok (some d) ∧ k ≠ d := by
  obtain ⟨e, member, first, second, hidden⟩ : ∃ e ∈ mixedConstants,
      e.world.constantAt ⟨0⟩ "foo" = some ⟨1⟩ ∧ e.world.constantAt ⟨0⟩ "FOO" = some ⟨0⟩ ∧
      (e.world.readConstant ⟨0⟩ "foo").constantAt ⟨0⟩ "FOO" = some ⟨1⟩ := by
    decide +kernel
  refine ⟨e, member, e.world.readConstant ⟨0⟩ "foo", ⟨0⟩, ⟨1⟩, ?_, ?_, ?_, by decide⟩
  · rw [ConstantRegistry.find_apply, first]
  · rw [ConstantRegistry.find_apply, second]
  · rw [ConstantRegistry.find_apply, hidden]

end ScriptHost
