import ScriptHost.Proofs.Registry.Meaning

set_option autoImplicit false

namespace ScriptHost

variable {τ : Type} {w : World τ} {p q : Lookup} {e x y : Entity} {es : List Entity}

def Lookup.isConstant : Lookup → Bool
  | .ofConstant _ => true
  | _ => false

def Entity.isConstant : Entity → Bool
  | .ofConstant _ => true
  | _ => false

theorem Entity.isExact_of_loose (loose : e.isConstant = false) : e.isExact w = false := by
  cases e with
  | ofClass | ofFunction => rfl
  | ofConstant => cases loose

theorem Entity.AnswersTo.isConstant (answers : e.AnswersTo w q) : q.isConstant = e.isConstant := by
  have same := answers.folded_eq
  cases e <;> cases q <;> first | rfl | cases same

theorem Lookup.isConstant_folded (q : Lookup) : q.folded.isConstant = q.isConstant := by
  cases q <;> rfl

namespace Naming

variable {n n' : Naming} {keys : List Lookup}

theorem IsSound.not_exact (sound : n.IsSound w) (loose : q.isConstant = false) :
    ¬ ∃ x, n.shared q = some x ∧ x.isExact w := by
  rintro ⟨x, found, exact⟩
  have kind := (sound.shared q x found).2.isConstant
  rw [Entity.isExact_of_loose (kind.symm.trans loose)] at exact
  cases exact

theorem IsSound.shared_folded (sound : n.IsSound w) (loose : p.isConstant = false)
    (same : p.folded = q.folded) : n.shared p = n.shared q := by
  -- spellings come apart only for an entity that answers to one alone, and that is a constant
  rcases sound.regular.folded p q same with alike | exact | exact
  · exact alike
  · exact absurd exact (sound.not_exact loose)
  · refine absurd exact (sound.not_exact ?_)
    rw [← q.isConstant_folded, ← same, p.isConstant_folded, loose]

theorem IsSound.settle_loose (sound : n.IsSound w) (plain : e.IsPlain w)
    (loose : q.isConstant = false) (stands : n.meaning q = some x) :
    (n.settle w e).meaning q = some x := by
  rcases sound.settle_meaning plain stands with kept | hides
  · exact kept
  · exact absurd hides.exact (sound.not_exact loose)

theorem meaning_of_shared (n : Naming) (there : n.shared q = some x) :
    ∃ y, n.meaning q = some y := by
  rw [meaning, there]
  cases n.own q <;> exact ⟨_, rfl⟩

theorem map_fst_turns (w : World τ) (n : Naming) (es : List Entity) :
    (n.turns w es).map Prod.fst = es := by
  induction es generalizing n with
  | nil => rfl
  | cons e rest ih => rw [turns, List.map_cons, ih]

theorem draw_shared (n : Naming) (w : World τ) (q : Lookup) : (n.draw w q).shared = n.shared := by
  unfold draw
  split <;> rfl

theorem draw_of_unknown (undefined : n.meaning q = none) : n.draw w q = n := by
  obtain ⟨absent, nowhere⟩ := Option.or_eq_none_iff.1 undefined
  simp only [draw, absent, nowhere]

theorem IsSound.draw (sound : n.IsSound w) (q : Lookup) : (n.draw w q).IsSound w := by
  unfold Naming.draw
  split
  next x _ there =>
    exact ⟨extend_isSound (sound.shared q x there).1 sound.own, sound.shared, sound.regular⟩
  next => exact sound

theorem draw_congr {v : World τ} (sound : n.IsSound w)
    (kept : ∀ x : Entity, x.isKnown w → x.profile v = x.profile w) (q : Lookup) :
    n.draw v q = n.draw w q := by
  unfold draw
  split
  next x _ there => rw [extend_congr (kept x (sound.shared q x there).1)]
  next => rfl

theorem settle_shared_held (there : n.shared q = some x) : (n.settle w e).shared q = some x := by
  obtain ⟨_, -, -, same⟩ | ⟨_, -, -, -, same⟩ | ⟨-, -, -, same⟩ := n.settle_cases w e <;> rw [same]
  · exact there
  · exact there
  · exact extend_held there

theorem settleAll_shared_held (there : n.shared q = some x) :
    (n.settleAll w es).shared q = some x := by
  induction es generalizing n with
  | nil => exact there
  | cons e rest ih => exact ih (settle_shared_held there)

structure DrawnAhead (n n' : Naming) (keys : List Lookup) : Prop where
  shared : n'.shared = n.shared
  own : ∀ q, n'.own q = if q.folded ∈ keys then n.meaning q else n.own q
  known : ∀ q, q.folded ∈ keys → q.isConstant = false ∧ (n.shared q).isSome

theorem DrawnAhead.refl (n : Naming) : n.DrawnAhead n [] :=
  ⟨rfl, fun _ => (if_neg List.not_mem_nil).symm, fun _ member => nomatch member⟩

namespace DrawnAhead

variable (ahead : n.DrawnAhead n' keys)
include ahead

theorem meaning (q : Lookup) : n'.meaning q = n.meaning q := by
  rw [Naming.meaning, ahead.own, ahead.shared]
  split
  next =>
    rw [Naming.meaning]
    cases n.own q <;> cases n.shared q <;> rfl
  next => rfl

theorem standing (w : World τ) (e : Entity) : n'.standing w e = n.standing w e := by
  rw [Naming.standing, Naming.standing, ahead.meaning]

theorem own_of_held (held : n.own q = some x) : n'.own q = some x := by
  rw [ahead.own, meaning_of_own held, held, ite_self]

theorem share {shared : Lookup → Option Entity}
    (grows : ∀ q x, n.shared q = some x → shared q = some x) :
    DrawnAhead { n with shared } { n' with shared } keys where
  shared := rfl
  own q := by
    rw [meaning_mk]
    by_cases key : q.folded ∈ keys
    · obtain ⟨x, there⟩ := Option.isSome_iff_exists.1 (ahead.known q key).2
      rw [if_pos key, grows q x there, ahead.own, if_pos key, Naming.meaning, there]
    · rw [if_neg key]
      exact (ahead.own q).trans (if_neg key)
  known q key := by
    obtain ⟨x, there⟩ := Option.isSome_iff_exists.1 (ahead.known q key).2
    exact ⟨(ahead.known q key).1, Option.isSome_iff_exists.2 ⟨x, grows q x there⟩⟩

theorem draw_known (sound : n.IsSound w) (key : p.folded ∈ keys)
    (there : n.shared p = some x) :
    DrawnAhead { n with own := extend n.own w x } n' keys where
  shared := ahead.shared
  known := ahead.known
  own q := by
    show n'.own q = if q.folded ∈ keys then (extend n.own w x q).or (n.shared q)
      else extend n.own w x q
    have answers := (sound.shared p x there).2
    rw [ahead.own]
    -- what the one context draws now, the other has drawn under all its spellings
    by_cases other : x.AnswersTo w q
    · have spelled : p.folded = q.folded := answers.folded_eq.trans other.folded_eq.symm
      have shared : n.shared q = some x :=
        (sound.shared_folded (ahead.known p key).1 spelled).symm.trans there
      rw [if_pos (spelled ▸ key), if_pos (spelled ▸ key), Naming.meaning, extend, if_pos other, shared]
      cases n.own q <;> rfl
    · rw [extend_other other]
      rfl

theorem extend_both (answers : x.AnswersTo w p) (new : p.folded ∉ keys) {f : Lookup → Option Entity}
    (grows : f = n.shared ∨ f = extend n.shared w x) :
    DrawnAhead ⟨extend n.own w x, f⟩ ⟨extend n'.own w x, f⟩ keys := by
  -- the entity answers to spellings of one name, and no key is one of them
  have other {q : Lookup} (key : q.folded ∈ keys) : ¬ x.AnswersTo w q := fun spelled =>
    new ((answers.folded_eq.trans spelled.folded_eq.symm) ▸ key)
  have same {q : Lookup} (key : q.folded ∈ keys) : f q = n.shared q := by
    rcases grows with rfl | rfl
    · rfl
    · exact extend_other (other key)
  refine ⟨rfl, fun q => ?_, fun q key => ?_⟩
  · rw [meaning_mk]
    dsimp only
    by_cases key : q.folded ∈ keys
    · rw [if_pos key, extend_other (other key), extend_other (other key), same key, ahead.own,
        if_pos key]
      rfl
    · rw [if_neg key, extend, extend, ahead.own, if_neg key]
  · rw [show (⟨extend n.own w x, f⟩ : Naming).shared q = n.shared q from same key]
    exact ahead.known q key

theorem draw (sound : n.IsSound w) (p : Lookup) : (n.draw w p).DrawnAhead (n'.draw w p) keys := by
  cases held : n.own p with
  | some x => rwa [draw_of_own held, draw_of_own (ahead.own_of_held held)]
  | none =>
    cases there : n.shared p with
    | none =>
      have undefined : n.meaning p = none := Option.or_eq_none_iff.2 ⟨held, there⟩
      rwa [draw_of_unknown undefined, draw_of_unknown ((ahead.meaning p).trans undefined)]
    | some x =>
      rw [draw_of_shared held there]
      by_cases key : p.folded ∈ keys
      · have drawn : n'.own p = some x := by
          rw [ahead.own, if_pos key, Naming.meaning, held, there]
          rfl
        rw [draw_of_own drawn]
        exact ahead.draw_known sound key there
      · have absent : n'.own p = none := by rw [ahead.own, if_neg key, held]
        rw [draw_of_shared absent (ahead.shared ▸ there), ahead.shared]
        exact ahead.extend_both (sound.shared p x there).2 key (.inl rfl)

theorem settle (sound : n.IsSound w) (plain : x.IsPlain w) :
    (n.settle w x).DrawnAhead (n'.settle w x) keys := by
  cases stands : n.meaning (x.lookup w) with
  | some y =>
    simp only [Naming.settle, ahead.meaning, stands]
    exact ahead.draw sound _
  | none =>
    simp only [Naming.settle, ahead.meaning, stands]
    rw [ahead.shared]
    -- nothing stands under the name, but the scope has something under every key
    refine ahead.extend_both (Entity.answersTo_lookup plain) (fun key => ?_) (.inr rfl)
    obtain ⟨-, nowhere⟩ := Option.or_eq_none_iff.1 stands
    have known := (ahead.known _ key).2
    rw [nowhere] at known
    cases known

theorem draw_alone (sound : n.IsSound w) (loose : p.isConstant = false)
    (there : n.shared p = some x) : ∃ keys', n.DrawnAhead (n'.draw w p) keys' := by
  have shared : n'.shared p = some x := ahead.shared ▸ there
  cases held : n'.own p with
  | some y =>
    rw [draw_of_own held]
    exact ⟨keys, ahead⟩
  | none =>
    rw [draw_of_shared held shared]
    have answers := (sound.shared p x there).2
    have spelled {q : Lookup} (same : q.folded = p.folded) : q.isConstant = false ∧
        n.shared q = some x ∧ x.AnswersTo w q := by
      have alike := (sound.shared_folded loose same.symm).symm.trans there
      refine ⟨?_, alike, (sound.shared q x alike).2⟩
      rw [← q.isConstant_folded, same, p.isConstant_folded, loose]
    -- one lookup draws what the scope has under every spelling, so its folded name is a key
    refine ⟨p.folded :: keys, ahead.shared, fun q => ?_, fun q key => ?_⟩
    · dsimp only
      by_cases same : q.folded = p.folded
      · obtain ⟨-, alike, other⟩ := spelled same
        rw [if_pos (same ▸ List.mem_cons_self), extend, if_pos other, ahead.own, Naming.meaning, alike]
        split
        next => cases n.own q <;> rfl
        next => rfl
      · have silent : ¬ x.AnswersTo w q := fun other =>
          same (other.folded_eq.trans answers.folded_eq.symm)
        rw [extend_other silent, ahead.own]
        simp only [List.mem_cons, same, false_or]
    · rcases List.mem_cons.1 key with same | before
      · obtain ⟨loose, alike, -⟩ := spelled same
        exact ⟨loose, alike ▸ rfl⟩
      · exact ahead.known q before

end DrawnAhead

end Naming

end ScriptHost
