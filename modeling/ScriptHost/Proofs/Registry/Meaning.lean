import ScriptHost.Proofs.Registry.Constants

set_option autoImplicit false

namespace ScriptHost

variable {τ : Type} {w v : World τ}

inductive Entity where
  | ofClass (k : ClassId)
  | ofFunction (f : FunctionId)
  | ofConstant (k : ConstantId)
deriving DecidableEq

inductive Lookup where
  | ofClass (name : Bytes)
  | ofFunction (name : Bytes)
  | ofConstant (name : Bytes)
deriving DecidableEq

namespace Lookup

def map (f : Bytes → Bytes) : Lookup → Lookup
  | ofClass name => ofClass (f name)
  | ofFunction name => ofFunction (f name)
  | ofConstant name => ofConstant (f name)

def bare (q : Lookup) : Lookup := q.map withoutSeparator

def folded (q : Lookup) : Lookup := q.map fun name => (withoutSeparator name).lower

theorem folded_eq (q : Lookup) : q.folded = q.bare.map Bytes.lower := by
  cases q <;> rfl

end Lookup

namespace Entity

structure Profile where
  name : Bytes
  trace : Trace
  isStatic : Bool
  isCaseSensitive : Bool
  onEnter : Option Callback

def profile (w : World τ) : Entity → Profile
  | ofClass k => ⟨(w.classes.get k).name, (w.classes.get k).trace, (w.classes.get k).isStatic, false,
      (w.classes.get k).onEnter⟩
  | ofFunction f => ⟨(w.functions.get f).name, (w.functions.get f).trace,
      (w.functions.get f).isStatic, false, none⟩
  | ofConstant k => ⟨(w.constants.get k).name, (w.constants.get k).trace, true,
      (w.constants.get k).isCaseSensitive, none⟩

def isKnown (w : World τ) : Entity → Bool
  | ofClass k => w.classes.has k
  | ofFunction f => w.functions.has f
  | ofConstant k => w.constants.has k

def under : Entity → Bytes → Lookup
  | ofClass _ => .ofClass
  | ofFunction _ => .ofFunction
  | ofConstant _ => .ofConstant

def lookup (w : World τ) (e : Entity) : Lookup := e.under (e.profile w).name

def isExact (w : World τ) (e : Entity) : Bool := (e.profile w).isCaseSensitive

def AnswersTo (w : World τ) (e : Entity) (q : Lookup) : Prop :=
  if e.isExact w then q.bare = e.lookup w else q.folded = (e.lookup w).map Bytes.lower

instance (w : World τ) (e : Entity) (q : Lookup) : Decidable (e.AnswersTo w q) := by
  unfold AnswersTo
  infer_instance

def IsPlain (w : World τ) (e : Entity) : Prop := (e.profile w).name.head? ≠ some 0x5c

variable {e x : Entity} {p q : Lookup}

theorem bare_lookup (plain : e.IsPlain w) : (e.lookup w).bare = e.lookup w := by
  cases e <;> exact congrArg _ (withoutSeparator_of_plain plain)

theorem answersTo_lookup (plain : e.IsPlain w) : e.AnswersTo w (e.lookup w) := by
  unfold AnswersTo
  rw [Lookup.folded_eq, bare_lookup plain]
  split <;> rfl

theorem AnswersTo.folded_eq (answers : e.AnswersTo w q) :
    q.folded = (e.lookup w).map Bytes.lower := by
  unfold AnswersTo at answers
  split at answers
  next => rw [Lookup.folded_eq, answers]
  next => exact answers

theorem AnswersTo.bare_eq (exact : e.isExact w) (answers : e.AnswersTo w q) :
    q.bare = e.lookup w := by
  rwa [AnswersTo, if_pos exact] at answers

theorem lookup_congr (same : e.profile v = e.profile w) : e.lookup v = e.lookup w :=
  congrArg (fun p : Profile => e.under p.name) same

theorem isExact_congr (same : e.profile v = e.profile w) : e.isExact v = e.isExact w :=
  congrArg Profile.isCaseSensitive same

theorem answersTo_congr (same : e.profile v = e.profile w) (q : Lookup) :
    e.AnswersTo v q ↔ e.AnswersTo w q := by
  unfold AnswersTo
  rw [isExact_congr same, lookup_congr same]

theorem ofConstant_answersTo {k : ConstantId} {name : Bytes} :
    (ofConstant k).AnswersTo w (.ofConstant name) ↔
      if (w.constants.get k).isCaseSensitive then (w.constants.get k).name = withoutSeparator name
      else (w.constants.get k).lowerName = (withoutSeparator name).lower := by
  show (if (w.constants.get k).isCaseSensitive then _ else _) ↔ _
  split
  next => exact ⟨fun same => (Lookup.ofConstant.inj same).symm, fun same => congrArg _ same.symm⟩
  next => exact ⟨fun same => (Lookup.ofConstant.inj same).symm, fun same => congrArg _ same.symm⟩

theorem ofClass_answersTo {k : ClassId} {name : Bytes} :
    (ofClass k).AnswersTo w (.ofClass name) ↔
      (w.classes.get k).lowerName = (withoutSeparator name).lower :=
  ⟨fun same => (Lookup.ofClass.inj same).symm, fun same => congrArg Lookup.ofClass same.symm⟩

theorem ofFunction_answersTo {f : FunctionId} {name : Bytes} :
    (ofFunction f).AnswersTo w (.ofFunction name) ↔
      (w.functions.get f).lowerName = (withoutSeparator name).lower :=
  ⟨fun same => (Lookup.ofFunction.inj same).symm, fun same => congrArg Lookup.ofFunction same.symm⟩

end Entity

namespace Declarations

def find (d : Declarations) : Lookup → Option Entity
  | .ofClass name => (d.classes.get? (withoutSeparator name).lower).map .ofClass
  | .ofFunction name => (d.functions.get? (withoutSeparator name).lower).map .ofFunction
  | .ofConstant name => (d.constants.find? (withoutSeparator name)).map .ofConstant

def insert (d : Declarations) (w : World τ) : Entity → Declarations
  | .ofClass k => { d with classes := d.classes.insert (w.classes.get k).lowerName k }
  | .ofFunction f => { d with functions := d.functions.insert (w.functions.get f).lowerName f }
  | .ofConstant k => { d with constants := d.constants.add (w.constants.get k) k }

variable {d : Declarations} {p q : Lookup} {x y : Entity}

theorem IsSound.find_answers (sound : d.IsSound w) (found : d.find q = some x) :
    x.isKnown w ∧ x.AnswersTo w q := by
  cases q with
  | ofClass name =>
    obtain ⟨k, there, rfl⟩ := Option.map_eq_some_iff.1 found
    exact (sound.classes _ k there).imp_right Entity.ofClass_answersTo.2
  | ofFunction name =>
    obtain ⟨f, there, rfl⟩ := Option.map_eq_some_iff.1 found
    exact (sound.functions _ f there).imp_right Entity.ofFunction_answersTo.2
  | ofConstant name =>
    obtain ⟨k, there, rfl⟩ := Option.map_eq_some_iff.1 found
    exact (sound.find_constant there).imp_right Entity.ofConstant_answersTo.2

theorem find_insert_other (silent : ¬ x.AnswersTo w q) : (d.insert w x).find q = d.find q := by
  cases x <;> cases q <;> try rfl
  next k name =>
    rw [Entity.ofClass_answersTo] at silent
    simp [find, insert, Ne.symm silent]
  next f name =>
    rw [Entity.ofFunction_answersTo] at silent
    simp [find, insert, Ne.symm silent]
  next k name =>
    rw [Entity.ofConstant_answersTo] at silent
    refine congrArg (Option.map _) ?_
    show ((d.constants.add _ k).find? (withoutSeparator name)) = _
    unfold ConstantSet.add
    split
    next sensitive =>
      rw [if_pos sensitive] at silent
      simp [ConstantSet.find?, Ne.symm silent]
    next loose =>
      rw [if_neg loose] at silent
      simp [ConstantSet.find?, Ne.symm silent]

theorem find_insert_self (answers : x.AnswersTo w q) (absent : d.find q = none) :
    (d.insert w x).find q = some x := by
  cases x <;> cases q <;> try (cases answers.folded_eq)
  next k name =>
    rw [Entity.ofClass_answersTo] at answers
    simp [find, insert, answers]
  next f name =>
    rw [Entity.ofFunction_answersTo] at answers
    simp [find, insert, answers]
  next k name =>
    exact congrArg (Option.map _) (ConstantSet.find?_add_self k (Option.map_eq_none_iff.1 absent)
      (Entity.ofConstant_answersTo.1 answers))

theorem find_bare (d : Declarations) (same : p.bare = q.bare) : d.find p = d.find q := by
  cases p <;> cases q <;> try (cases same)
  next n m => simp only [find, show withoutSeparator n = withoutSeparator m from Lookup.ofClass.inj same]
  next n m =>
    simp only [find, show withoutSeparator n = withoutSeparator m from Lookup.ofFunction.inj same]
  next n m =>
    simp only [find, show withoutSeparator n = withoutSeparator m from Lookup.ofConstant.inj same]

theorem find_folded (d : Declarations) (same : p.folded = q.folded) : d.find p = d.find q ∨
    ∃ n m, p = .ofConstant n ∧ q = .ofConstant m ∧
      ((d.constants.exact.get? (withoutSeparator n)).isSome ∨
        (d.constants.exact.get? (withoutSeparator m)).isSome) := by
  cases p <;> cases q <;> try (cases same)
  next n m =>
    have key : (withoutSeparator n).lower = (withoutSeparator m).lower := Lookup.ofClass.inj same
    exact .inl (by simp only [find, key])
  next n m =>
    have key : (withoutSeparator n).lower = (withoutSeparator m).lower := Lookup.ofFunction.inj same
    exact .inl (by simp only [find, key])
  next n m =>
    have key : (withoutSeparator n).lower = (withoutSeparator m).lower := Lookup.ofConstant.inj same
    cases left : d.constants.exact.get? (withoutSeparator n) with
    | some k => exact .inr ⟨n, m, rfl, rfl, .inl (by rw [left]; rfl)⟩
    | none =>
      cases right : d.constants.exact.get? (withoutSeparator m) with
      | some k => exact .inr ⟨n, m, rfl, rfl, .inr (by rw [right]; rfl)⟩
      | none => exact .inl (by simp only [find, ConstantSet.find?, left, right, key])

theorem find_insert_held (answers : x.AnswersTo w p) (absent : d.find p = none)
    (held : d.find q = some y) : (d.insert w x).find q = some y := by
  by_cases other : x.AnswersTo w q
  · rcases d.find_folded (answers.folded_eq.trans other.folded_eq.symm) with same | ⟨n, m, rfl, rfl, -⟩
    · exact nomatch held.symm.trans (same.symm.trans absent)
    · cases x <;> try (cases answers.folded_eq)
      next k =>
        obtain ⟨b, there, rfl⟩ := Option.map_eq_some_iff.1 held
        rw [Entity.ofConstant_answersTo] at answers
        obtain ⟨apart, folded⟩ :=
          ConstantSet.apart_of_find? (Option.map_eq_none_iff.1 absent) there
        refine congrArg (Option.map _) (ConstantSet.find?_add _ k there (fun sensitive => ?_)
          fun insensitive inexact => ?_)
        · rw [if_pos sensitive] at answers
          exact answers ▸ apart
        · rw [if_neg (by simp [insensitive])] at answers
          exact answers ▸ folded inexact
  · rw [find_insert_other other, held]

end Declarations

def extend (f : Lookup → Option Entity) (w : World τ) (x : Entity) (q : Lookup) : Option Entity :=
  (f q).or (if x.AnswersTo w q then some x else none)

structure IsRegular (f : Lookup → Option Entity) (w : World τ) : Prop where
  bare : ∀ p q, p.bare = q.bare → f p = f q
  folded : ∀ p q, p.folded = q.folded → f p = f q ∨
    (∃ x, f p = some x ∧ x.isExact w) ∨ ∃ x, f q = some x ∧ x.isExact w

section Finding

variable {f : Lookup → Option Entity} {x y e : Entity} {p q : Lookup}

theorem extend_held (held : f q = some y) : extend f w x q = some y := by
  rw [extend, held]
  rfl

theorem extend_self (absent : f q = none) (answers : x.AnswersTo w q) :
    extend f w x q = some x := by
  rw [extend, absent, if_pos answers]
  rfl

theorem extend_other (silent : ¬ x.AnswersTo w q) : extend f w x q = f q := by
  rw [extend, if_neg silent, Option.or_none]

theorem extend_cases (f : Lookup → Option Entity) (w : World τ) (x : Entity) (q : Lookup) :
    extend f w x q = f q ∨ f q = none ∧ x.AnswersTo w q ∧ extend f w x q = some x := by
  by_cases answers : x.AnswersTo w q
  · cases held : f q with
    | some y => exact .inl (extend_held held)
    | none => exact .inr ⟨rfl, answers, extend_self held answers⟩
  · exact .inl (extend_other answers)

theorem Declarations.find_insert {d : Declarations} (answers : x.AnswersTo w p)
    (absent : d.find p = none) : (d.insert w x).find = extend d.find w x := by
  funext q
  cases held : d.find q with
  | some y => rw [extend_held held, find_insert_held answers absent held]
  | none =>
    by_cases other : x.AnswersTo w q
    · rw [extend_self held other, find_insert_self other held]
    · rw [extend_other other, find_insert_other other]

theorem Declarations.IsSound.regular {d : Declarations} (sound : d.IsSound w) :
    IsRegular d.find w where
  bare _ _ := d.find_bare
  folded p q same := by
    refine (d.find_folded same).imp_right ?_
    rintro ⟨n, m, rfl, rfl, alone⟩
    refine alone.imp (fun there => ?_) fun there => ?_
    all_goals
      obtain ⟨k, found⟩ := Option.isSome_iff_exists.1 there
      exact ⟨.ofConstant k, by rw [Declarations.find, ConstantSet.find?, found]; rfl,
        (sound.exact _ k found).2.1⟩

namespace IsRegular

variable (regular : IsRegular f w)
include regular

theorem of_answers (answers : x.AnswersTo w p) (other : x.AnswersTo w q)
    (known : f p = none ∨ f p = some x) :
    f q = f p ∨ x.isExact w = false ∧ ∃ y, f q = some y ∧ y.isExact w := by
  cases exact : x.isExact w with
  | true =>
    exact .inl (regular.bare q p ((other.bare_eq exact).trans (answers.bare_eq exact).symm))
  | false =>
    rcases regular.folded p q (answers.folded_eq.trans other.folded_eq.symm) with
      same | ⟨y, found, single⟩ | alone
    · exact .inl same.symm
    · rcases known with nothing | itself
      · exact nomatch found.symm.trans nothing
      · cases found.symm.trans itself
        cases exact.symm.trans single
    · exact .inr ⟨rfl, alone⟩

theorem extend (e : Entity) : IsRegular (extend f w e) w where
  bare p q same := by
    have answers : e.AnswersTo w p ↔ e.AnswersTo w q := by
      unfold Entity.AnswersTo
      rw [Lookup.folded_eq, Lookup.folded_eq, same]
    simp only [ScriptHost.extend, regular.bare p q same, answers]
  folded p q same := by
    rcases regular.folded p q same with alike | ⟨y, found, single⟩ | ⟨y, found, single⟩
    · cases held : f p with
      | some y => exact .inl ((extend_held held).trans (extend_held (alike ▸ held)).symm)
      | none =>
        cases exact : e.isExact w with
        | false =>
          have answers : e.AnswersTo w p ↔ e.AnswersTo w q := by
            rw [Entity.AnswersTo, Entity.AnswersTo, if_neg (by simp [exact]),
              if_neg (by simp [exact]), same]
          exact .inl (by simp only [ScriptHost.extend, alike, answers])
        | true =>
          -- an entity with a single spelling may answer to one of the two spellings only
          rcases extend_cases f w e p with left | ⟨-, -, left⟩
          · rcases extend_cases f w e q with right | ⟨-, -, right⟩
            · exact .inl (left.trans (alike.trans right.symm))
            · exact .inr (.inr ⟨e, right, exact⟩)
          · exact .inr (.inl ⟨e, left, exact⟩)
    · exact .inr (.inl ⟨y, extend_held found, single⟩)
    · exact .inr (.inr ⟨y, extend_held found, single⟩)

end IsRegular

end Finding

@[ext]
structure Naming where
  own : Lookup → Option Entity
  shared : Lookup → Option Entity

namespace Naming

def meaning (n : Naming) (q : Lookup) : Option Entity := (n.own q).or (n.shared q)

def standing (n : Naming) (w : World τ) (e : Entity) : Entity := (n.meaning (e.lookup w)).getD e

def draw (n : Naming) (w : World τ) (q : Lookup) : Naming :=
  match n.own q, n.shared q with
  | none, some x => { n with own := extend n.own w x }
  | _, _ => n

def settle (n : Naming) (w : World τ) (e : Entity) : Naming :=
  match n.meaning (e.lookup w) with
  | some _ => n.draw w (e.lookup w)
  | none => ⟨extend n.own w e, extend n.shared w e⟩

def settleAll (n : Naming) (w : World τ) (es : List Entity) : Naming :=
  es.foldl (fun n e => n.settle w e) n

def turns (w : World τ) : Naming → List Entity → List (Entity × Bool)
  | _, [] => []
  | n, e :: rest => (e, decide (n.standing w e ≠ e)) :: turns w (n.settle w e) rest

structure IsSound (n : Naming) (w : World τ) : Prop where
  own : ∀ q x, n.own q = some x → x.isKnown w ∧ x.AnswersTo w q
  shared : ∀ q x, n.shared q = some x → x.isKnown w ∧ x.AnswersTo w q
  regular : IsRegular n.shared w

variable {n : Naming} {e x y : Entity} {p q : Lookup} {es fs : List Entity}

theorem meaning_mk (f g : Lookup → Option Entity) (q : Lookup) :
    meaning ⟨f, g⟩ q = (f q).or (g q) :=
  rfl

theorem meaning_of_own (held : n.own q = some x) : n.meaning q = some x := by
  rw [meaning, held]
  rfl

theorem draw_of_own (held : n.own q = some x) : n.draw w q = n := by
  simp only [draw, held]

theorem draw_of_shared (absent : n.own q = none) (there : n.shared q = some x) :
    n.draw w q = { n with own := extend n.own w x } := by
  simp only [draw, absent, there]

theorem settle_of_own (held : n.own (e.lookup w) = some x) : n.settle w e = n := by
  simp only [settle, meaning_of_own held, draw_of_own held]

theorem settle_of_shared (absent : n.own (e.lookup w) = none)
    (there : n.shared (e.lookup w) = some x) :
    n.settle w e = { n with own := extend n.own w x } := by
  simp only [settle, meaning, absent, there, Option.none_or, draw]

theorem settle_of_unknown (absent : n.own (e.lookup w) = none)
    (nowhere : n.shared (e.lookup w) = none) :
    n.settle w e = ⟨extend n.own w e, extend n.shared w e⟩ := by
  simp only [settle, meaning, absent, nowhere, Option.none_or]

theorem settle_cases (n : Naming) (w : World τ) (e : Entity) :
    (∃ x, n.own (e.lookup w) = some x ∧ n.standing w e = x ∧ n.settle w e = n) ∨
    (∃ x, n.own (e.lookup w) = none ∧ n.shared (e.lookup w) = some x ∧ n.standing w e = x ∧
      n.settle w e = { n with own := extend n.own w x }) ∨
    n.own (e.lookup w) = none ∧ n.shared (e.lookup w) = none ∧ n.standing w e = e ∧
      n.settle w e = ⟨extend n.own w e, extend n.shared w e⟩ := by
  cases held : n.own (e.lookup w) with
  | some x =>
    exact .inl ⟨x, rfl, by rw [standing, meaning_of_own held]; rfl, settle_of_own held⟩
  | none =>
    cases there : n.shared (e.lookup w) with
    | some x =>
      exact .inr (.inl ⟨x, rfl, rfl, by simp [standing, meaning, held, there],
        settle_of_shared held there⟩)
    | none =>
      exact .inr (.inr ⟨rfl, rfl, by simp [standing, meaning, held, there],
        settle_of_unknown held there⟩)

theorem settle_own (held : n.own q = some x) : (n.settle w e).own q = some x := by
  obtain ⟨_, -, -, same⟩ | ⟨_, -, -, -, same⟩ | ⟨-, -, -, same⟩ := n.settle_cases w e <;> rw [same]
  · exact held
  · exact extend_held held
  · exact extend_held held

theorem settle_shared (there : (n.settle w e).shared q = some x) : n.shared q = some x ∨ x = e := by
  obtain ⟨_, -, -, same⟩ | ⟨_, -, -, -, same⟩ | ⟨-, -, -, same⟩ := n.settle_cases w e <;>
    rw [same] at there
  · exact .inl there
  · exact .inl there
  · rcases extend_cases n.shared w e q with old | ⟨-, -, new⟩
    · exact .inl (old.symm.trans there)
    · exact .inr (Option.some.inj (there.symm.trans new))

theorem settleAll_shared (there : (n.settleAll w es).shared q = some x) :
    n.shared q = some x ∨ x ∈ es := by
  induction es generalizing n with
  | nil => exact .inl there
  | cons e rest ih =>
    rcases ih there with before | later
    · refine (settle_shared before).imp_right ?_
      rintro rfl
      exact List.mem_cons_self
    · exact .inr (List.mem_cons_of_mem _ later)

theorem settleAll_own (held : n.own q = some x) : (n.settleAll w es).own q = some x := by
  induction es generalizing n with
  | nil => exact held
  | cons e rest ih => exact ih (settle_own held)

theorem settleAll_cons (n : Naming) (w : World τ) (e : Entity) (es : List Entity) :
    n.settleAll w (e :: es) = (n.settle w e).settleAll w es :=
  rfl

theorem settleAll_append (n : Naming) (w : World τ) (es fs : List Entity) :
    n.settleAll w (es ++ fs) = (n.settleAll w es).settleAll w fs :=
  List.foldl_append

theorem settleAll_of_own (held : ∀ e ∈ es, (n.own (e.lookup w)).isSome) :
    n.settleAll w es = n := by
  induction es with
  | nil => rfl
  | cons e rest ih =>
    obtain ⟨first, others⟩ := List.forall_mem_cons.1 held
    obtain ⟨x, there⟩ := Option.isSome_iff_exists.1 first
    rw [settleAll_cons, settle_of_own there, ih others]

theorem extend_isSound (known : x.isKnown w) {f : Lookup → Option Entity}
    (each : ∀ q y, f q = some y → y.isKnown w ∧ y.AnswersTo w q) (q : Lookup) (y : Entity)
    (found : extend f w x q = some y) : y.isKnown w ∧ y.AnswersTo w q := by
  rcases extend_cases f w x q with same | ⟨-, answers, entered⟩
  · exact each q y (same.symm.trans found)
  · cases entered.symm.trans found
    exact ⟨known, answers⟩

namespace IsSound

variable (sound : n.IsSound w)
include sound

theorem settle (known : e.isKnown w) : (n.settle w e).IsSound w := by
  obtain ⟨_, -, -, same⟩ | ⟨x, -, there, -, same⟩ | ⟨-, -, -, same⟩ := n.settle_cases w e <;>
    rw [same]
  · exact sound
  · exact ⟨extend_isSound (sound.shared _ x there).1 sound.own, sound.shared, sound.regular⟩
  · exact ⟨extend_isSound known sound.own, extend_isSound known sound.shared,
      sound.regular.extend e⟩

theorem settleAll (known : ∀ e ∈ es, e.isKnown w) : (n.settleAll w es).IsSound w := by
  induction es generalizing n with
  | nil => exact sound
  | cons e rest ih =>
    obtain ⟨first, others⟩ := List.forall_mem_cons.1 known
    exact ih (sound.settle first) others

theorem settle_lookup (plain : e.IsPlain w) :
    (n.settle w e).own (e.lookup w) = some (n.standing w e) := by
  obtain ⟨x, held, stands, same⟩ | ⟨x, absent, there, stands, same⟩ | ⟨absent, -, stands, same⟩ :=
    n.settle_cases w e <;> rw [same, stands]
  · exact held
  · exact extend_self absent (sound.shared _ x there).2
  · exact extend_self absent (Entity.answersTo_lookup plain)

variable (known : ∀ e ∈ es, e.isKnown w) (plain : ∀ e ∈ es, e.IsPlain w)
include known plain

theorem turns_eq : n.turns w es =
    es.map fun e => (e, decide ((n.settleAll w es).own (e.lookup w) ≠ some e)) := by
  induction es generalizing n with
  | nil => rfl
  | cons e rest ih =>
    obtain ⟨first, others⟩ := List.forall_mem_cons.1 known
    obtain ⟨own, names⟩ := List.forall_mem_cons.1 plain
    have held : ((n.settle w e).settleAll w rest).own (e.lookup w) = some (n.standing w e) :=
      settleAll_own (sound.settle_lookup own)
    rw [turns, List.map_cons, settleAll_cons, held, ih (sound.settle first) others names]
    simp

theorem settleAll_lookup (member : e ∈ es) :
    ((n.settleAll w es).own (e.lookup w)).isSome := by
  induction es generalizing n with
  | nil => cases member
  | cons first rest ih =>
    obtain ⟨there, others⟩ := List.forall_mem_cons.1 known
    obtain ⟨own, names⟩ := List.forall_mem_cons.1 plain
    rcases List.mem_cons.1 member with rfl | later
    · have held : ((n.settle w e).settleAll w rest).own (e.lookup w) = some (n.standing w e) :=
        settleAll_own (sound.settle_lookup own)
      rw [settleAll_cons, held]
      rfl
    · exact ih (sound.settle there) others names later

theorem settleAll_resume (fs : List Entity) :
    (n.settleAll w es).settleAll w (es ++ fs) = n.settleAll w (es ++ fs) := by
  rw [settleAll_append, settleAll_append,
    settleAll_of_own fun e => sound.settleAll_lookup known plain]

theorem settleAll_again : (n.settleAll w es).settleAll w es = n.settleAll w es :=
  settleAll_of_own fun _ => sound.settleAll_lookup known plain

theorem turns_again : (n.settleAll w es).turns w es = n.turns w es := by
  rw [(sound.settleAll known).turns_eq known plain, sound.turns_eq known plain,
    sound.settleAll_again known plain]

end IsSound

structure Hides (n n' : Naming) (w : World τ) (es : List Entity) (q : Lookup) : Prop where
  unread : n.own q = none
  exact : ∃ y, n.shared q = some y ∧ y.isExact w
  loose : ∃ x, n'.own q = some x ∧ x.isExact w = false
  spelling : ∃ e ∈ es, (e.lookup w).folded = q.folded

namespace IsSound

variable (sound : n.IsSound w)
include sound

theorem settle_meaning (plain : e.IsPlain w) (stands : n.meaning q = some y) :
    (n.settle w e).meaning q = some y ∨ n.Hides (n.settle w e) w [e] q := by
  obtain ⟨_, -, -, same⟩ | ⟨x, -, there, -, same⟩ | ⟨-, nowhere, -, same⟩ :=
    n.settle_cases w e <;> rw [same]
  · exact .inl stands
  -- the scope has an entity under the name already, which is drawn into the context
  · have answers := (sound.shared _ x there).2
    rcases extend_cases n.own w x q with kept | ⟨absent, other, entered⟩
    · exact .inl (by rwa [meaning_mk, kept])
    · have behind : n.shared q = some y := by rwa [Naming.meaning, absent, Option.none_or] at stands
      rcases sound.regular.of_answers answers other (.inr there) with alike | ⟨loose, single⟩
      · refine .inl (meaning_of_own (entered.trans ?_))
        rw [← behind, alike, there]
      · exact .inr ⟨absent, single, ⟨x, entered, loose⟩,
          ⟨e, List.mem_singleton_self e, answers.folded_eq.trans other.folded_eq.symm⟩⟩
  -- the name is free, and the entity enters the context under it
  · have answers := Entity.answersTo_lookup plain
    by_cases other : e.AnswersTo w q
    · cases held : n.own q with
      | some x =>
        rw [meaning_of_own held] at stands
        exact .inl (meaning_of_own ((extend_held held).trans stands))
      | none =>
        have behind : n.shared q = some y := by rwa [Naming.meaning, held, Option.none_or] at stands
        rcases sound.regular.of_answers answers other (.inl nowhere) with alike | ⟨loose, single⟩
        · exact nomatch behind.symm.trans (alike.trans nowhere)
        · exact .inr ⟨held, single, ⟨e, extend_self held other, loose⟩,
            ⟨e, List.mem_singleton_self e, answers.folded_eq.trans other.folded_eq.symm⟩⟩
    · exact .inl (by rwa [meaning_mk, extend_other other, extend_other other])

theorem settle_unknown (undefined : n.meaning q = none) :
    (n.settle w e).meaning q = none ∨ (n.settle w e).own q = some e := by
  obtain ⟨absent, nowhere⟩ := Option.or_eq_none_iff.1 undefined
  obtain ⟨_, -, -, same⟩ | ⟨x, -, there, -, same⟩ | ⟨-, -, -, same⟩ :=
    n.settle_cases w e <;> rw [same]
  · exact .inl undefined
  · rcases extend_cases n.own w x q with kept | ⟨-, other, -⟩
    · exact .inl (by rwa [meaning_mk, kept])
    · rcases sound.regular.of_answers (sound.shared _ x there).2 other (.inr there) with
        alike | ⟨-, y, single, -⟩
      · exact nomatch nowhere.symm.trans (alike.trans there)
      · exact nomatch nowhere.symm.trans single
  · by_cases other : e.AnswersTo w q
    · exact .inr (extend_self absent other)
    · exact .inl (by rwa [meaning_mk, extend_other other, extend_other other])

variable (known : ∀ e ∈ es, e.isKnown w)
include known

theorem settleAll_meaning (plain : ∀ e ∈ es, e.IsPlain w) (stands : n.meaning q = some y) :
    (n.settleAll w es).meaning q = some y ∨ n.Hides (n.settleAll w es) w es q := by
  induction es generalizing n with
  | nil => exact .inl stands
  | cons e rest ih =>
    obtain ⟨there, others⟩ := List.forall_mem_cons.1 known
    obtain ⟨own, names⟩ := List.forall_mem_cons.1 plain
    rw [settleAll_cons]
    rcases sound.settle_meaning own stands with
      kept | ⟨unread, exact, ⟨x, held, loose⟩, ⟨d, member, spelling⟩⟩
    · refine (ih (sound.settle there) others names kept).imp_right fun hides => ?_
      obtain ⟨unread, ⟨x, behind, single⟩, loose, ⟨d, member, spelling⟩⟩ := hides
      have absent : n.own q = none := by
        cases held : n.own q with
        | none => rfl
        | some z => exact nomatch unread.symm.trans (settle_own held)
      rw [Naming.meaning, absent, Option.none_or] at stands
      rw [Naming.meaning, unread, Option.none_or] at kept
      cases behind.symm.trans kept
      exact ⟨absent, ⟨y, stands, single⟩, loose, ⟨d, List.mem_cons_of_mem _ member, spelling⟩⟩
    · cases List.mem_singleton.1 member
      exact .inr ⟨unread, exact, ⟨x, settleAll_own held, loose⟩, ⟨e, List.mem_cons_self, spelling⟩⟩

theorem settleAll_unknown (undefined : n.meaning q = none) :
    (n.settleAll w es).meaning q = none ∨ ∃ e ∈ es, (n.settleAll w es).own q = some e := by
  induction es generalizing n with
  | nil => exact .inl undefined
  | cons e rest ih =>
    obtain ⟨there, others⟩ := List.forall_mem_cons.1 known
    rw [settleAll_cons]
    rcases sound.settle_unknown (e := e) undefined with still | held
    · refine (ih (sound.settle there) others still).imp_right ?_
      exact fun ⟨d, member, held⟩ => ⟨d, List.mem_cons_of_mem _ member, held⟩
    · exact .inr ⟨e, List.mem_cons_self, settleAll_own held⟩

end IsSound

theorem extend_congr (same : x.profile v = x.profile w) (f : Lookup → Option Entity) :
    extend f v x = extend f w x := by
  funext q
  simp only [extend, Entity.answersTo_congr same]

theorem settle_congr (sound : n.IsSound w) (e : Entity)
    (kept : ∀ x : Entity, x.isKnown w → x.profile v = x.profile w) (known : e.isKnown w) :
    n.settle v e = n.settle w e := by
  have own := Entity.lookup_congr (kept e known)
  obtain ⟨x, held, -, same⟩ | ⟨x, absent, there, -, same⟩ | ⟨absent, nowhere, -, same⟩ :=
    n.settle_cases w e <;> rw [same]
  · exact settle_of_own (own ▸ held)
  · rw [settle_of_shared (own ▸ absent) (own ▸ there), extend_congr (kept x (sound.shared _ x there).1)]
  · rw [settle_of_unknown (own ▸ absent) (own ▸ nowhere), extend_congr (kept e known),
      extend_congr (kept e known)]

theorem standing_congr (n : Naming) (same : e.profile v = e.profile w) :
    n.standing v e = n.standing w e := by
  rw [standing, standing, Entity.lookup_congr same]

theorem settleAll_congr (sound : n.IsSound w)
    (kept : ∀ x : Entity, x.isKnown w → x.profile v = x.profile w) (known : ∀ e ∈ es, e.isKnown w) :
    n.settleAll v es = n.settleAll w es := by
  induction es generalizing n with
  | nil => rfl
  | cons e rest ih =>
    obtain ⟨first, others⟩ := List.forall_mem_cons.1 known
    rw [settleAll_cons, settleAll_cons, settle_congr sound e kept first]
    exact ih (sound.settle first) others

theorem turns_congr (sound : n.IsSound w)
    (kept : ∀ x : Entity, x.isKnown w → x.profile v = x.profile w) (known : ∀ e ∈ es, e.isKnown w) :
    n.turns v es = n.turns w es := by
  induction es generalizing n with
  | nil => rfl
  | cons e rest ih =>
    obtain ⟨first, others⟩ := List.forall_mem_cons.1 known
    rw [turns, turns, settle_congr sound e kept first, n.standing_congr (kept e first),
      ih (sound.settle first) others]

theorem IsSound.later (sound : n.IsSound w)
    (kept : ∀ x : Entity, x.isKnown w → x.isKnown v ∧ x.profile v = x.profile w) : n.IsSound v := by
  have each (q : Lookup) (x : Entity) (there : x.isKnown w ∧ x.AnswersTo w q) :
      x.isKnown v ∧ x.AnswersTo v q := by
    obtain ⟨known, same⟩ := kept x there.1
    exact ⟨known, (Entity.answersTo_congr same q).2 there.2⟩
  have alone (q : Lookup) : (∃ x, n.shared q = some x ∧ x.isExact w) →
      ∃ x, n.shared q = some x ∧ x.isExact v := by
    rintro ⟨x, found, single⟩
    refine ⟨x, found, ?_⟩
    rwa [Entity.isExact_congr (kept x (sound.shared q x found).1).2]
  refine ⟨fun q x held => each q x (sound.own q x held), fun q x there => each q x (sound.shared q x there),
    sound.regular.bare, fun p q same => ?_⟩
  exact (sound.regular.folded p q same).imp_right (Or.imp (alone p) (alone q))

end Naming

def World.names (w : World τ) (c : ContextId) : Naming :=
  ⟨(w.context c).declarations.find, (w.scopeOf c).declarations.find⟩

theorem World.Sound.names (sound : w.Sound) (c : ContextId) : (w.names c).IsSound w where
  own _ _ := (sound.contexts c).declarations.find_answers
  shared _ _ := (sound.scopes _).find_answers
  regular := (sound.scopes _).regular

end ScriptHost
