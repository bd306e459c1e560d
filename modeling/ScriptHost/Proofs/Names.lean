import ScriptHost.Registry.ClassRegistry

set_option autoImplicit false

namespace ScriptHost

namespace Text

theorem separator_not_lowered : ∀ r ∈ caseRanges,
    (r.last : Int) + r.shift < 0x5c ∨ 0x5c < (r.first : Int) + r.shift := by
  decide +kernel

theorem toNat_ofNat_of_eq {n : Nat} {c : Char} (same : Char.ofNat n = c) (proper : c ≠ '\x00') :
    n = c.toNat := by
  by_cases valid : n.isValidChar
  · rw [Char.ofNat, dif_pos valid] at same
    rw [← same]
    rfl
  · rw [Char.ofNat, dif_neg valid] at same
    exact absurd same.symm proper

theorem lowerChar_eq_separator (c : Char) : lowerChar c = '\\' ↔ c = '\\' := by
  constructor
  · intro same
    unfold lowerChar at same
    split at same
    next r found =>
      have apart := separator_not_lowered r (List.mem_of_find?_eq_some found)
      have inside := List.find?_some found
      simp only [CaseRange.contains, Bool.and_eq_true, decide_eq_true_eq] at inside
      have image : (c.toNat + r.shift).toNat = 0x5c := toNat_ofNat_of_eq same (by decide)
      omega
    next => exact same
  · rintro rfl
    decide +kernel

end Text

namespace Rune

theorem ofNat_ne_separator {n : Nat} (beyond : 0x80 ≤ n) : Char.ofNat n ≠ '\\' := by
  intro same
  have value : n = 0x5c := Text.toNat_ofNat_of_eq same (by decide)
  omega

theorem pair?_ne_separator {a b : UInt8} {c : Char} (read : pair? a b = some c) : c ≠ '\\' := by
  simp only [pair?, isContinuation, Option.ite_none_right_eq_some, Bool.and_eq_true,
    decide_eq_true_eq, UInt8.le_iff_toNat_le, UInt8.reduceToNat, Option.some.injEq] at read
  rw [← read.2]
  exact ofNat_ne_separator (by omega)

theorem triple?_ne_separator {a b c : UInt8} {r : Char} (read : triple? a b c = some r) :
    r ≠ '\\' := by
  simp only [triple?, isContinuation, Option.ite_none_right_eq_some, Bool.and_eq_true,
    decide_eq_true_eq, UInt8.le_iff_toNat_le, UInt8.reduceToNat, Option.some.injEq] at read
  obtain ⟨⟨⟨⟨first, _⟩, second⟩, _⟩, _⟩ := read.1
  rw [← read.2]
  refine ofNat_ne_separator ?_
  by_cases least : a = 0xe0
  · rw [if_pos least] at second
    simp only [UInt8.reduceToNat] at second
    omega
  · have apart : a.toNat ≠ 0xe0 := fun same => least (UInt8.toNat_inj.1 same)
    omega

theorem quadruple?_ne_separator {a b c d : UInt8} {r : Char} (read : quadruple? a b c d = some r) :
    r ≠ '\\' := by
  simp only [quadruple?, isContinuation, Option.ite_none_right_eq_some, Bool.and_eq_true,
    decide_eq_true_eq, UInt8.le_iff_toNat_le, UInt8.reduceToNat, Option.some.injEq] at read
  obtain ⟨⟨⟨⟨⟨first, _⟩, second⟩, _⟩, _⟩, _⟩ := read.1
  rw [← read.2]
  refine ofNat_ne_separator ?_
  by_cases least : a = 0xf0
  · rw [if_pos least] at second
    simp only [UInt8.reduceToNat] at second
    omega
  · have apart : a.toNat ≠ 0xf0 := fun same => least (UInt8.toNat_inj.1 same)
    omega

end Rune

namespace Bytes

theorem head?_ofChar (c : Char) : (ofChar c).head? = some 0x5c ↔ c = '\\' := by
  constructor
  · intro same
    have value : c.val.toNat = 0x5c := by
      have byte {n : Nat} {rest : Bytes} (same : (UInt8.ofNat n :: rest).head? = some 0x5c) :
          n % 256 = 0x5c := by
        simpa using congrArg UInt8.toNat (Option.some.inj same)
      have bound := c.val.toNat_lt
      unfold ofChar String.utf8EncodeChar at same
      dsimp only at same
      -- one byte is the character itself; the first of several bytes is too large
      split at same
      · have first := byte same
        omega
      split at same
      · have first := byte same
        omega
      split at same
      all_goals
        have first := byte same
        omega
    exact Char.ext (UInt32.toNat_inj.1 value)
  · rintro rfl
    rfl

theorem ofNat_toNat_eq_separator (a : UInt8) : Char.ofNat a.toNat = '\\' ↔ a = 0x5c := by
  constructor
  · intro same
    exact UInt8.toNat_inj.1 (Text.toNat_ofNat_of_eq same (by decide))
  · rintro rfl
    rfl

theorem head?_runes (s : Bytes) :
    s.runes.head? = some (.scalar '\\') ↔ s.head? = some 0x5c := by
  have beyond {a : UInt8} (notAscii : ¬ a < 0x80) : a ≠ 0x5c := by
    rintro rfl
    exact notAscii (by decide)
  fun_cases runes s with
  | case1 => simp
  | case2 a | case4 a => simp [ofNat_toNat_eq_separator]
  | case3 a notAscii | case6 a _ notAscii | case8 a _ notAscii | case10 a _ notAscii =>
    simp [beyond notAscii]
  | case5 a b rest notAscii r read => simp [beyond notAscii, Rune.pair?_ne_separator read]
  | case7 a b notAscii _ d rest r read => simp [beyond notAscii, Rune.triple?_ne_separator read]
  | case9 a b notAscii _ _ _ d rest r read =>
    simp [beyond notAscii, Rune.quadruple?_ne_separator read]

theorem head?_asciiLower (s : Bytes) : s.asciiLower.head? = some 0x5c ↔ s.head? = some 0x5c := by
  have only (a : UInt8) : (if 0x41 ≤ a ∧ a ≤ 0x5a then a + 32 else a) = 0x5c ↔ a = 0x5c := by
    split
    next upper =>
      simp only [UInt8.le_iff_toNat_le, UInt8.reduceToNat] at upper
      constructor <;> intro same
      · have value := congrArg UInt8.toNat same
        simp only [UInt8.toNat_add, UInt8.reduceToNat] at value
        omega
      · subst same
        simp at upper
    next => rfl
  cases s <;> simp [asciiLower, only]

theorem head?_lower (s : Bytes) : s.lower.head? = some 0x5c ↔ s.head? = some 0x5c := by
  unfold lower
  split
  next => exact head?_asciiLower s
  next =>
    rw [← head?_runes s]
    cases runes s with
    | nil => simp
    | cons r rest =>
      have written : ofChar (Text.lowerChar r.char) ≠ [] := String.utf8EncodeChar_ne_nil
      rw [List.flatMap_cons, List.head?_append, Option.or_of_isSome (by simpa using written),
        head?_ofChar, Text.lowerChar_eq_separator]
      cases r with
      | scalar c => simp [Rune.char]
      | stray b => simp [Rune.char, Rune.replacement]

end Bytes

theorem withoutSeparator_of_plain {name : Bytes} (plain : name.head? ≠ some 0x5c) :
    withoutSeparator name = name := by
  unfold withoutSeparator
  split
  next => exact absurd rfl plain
  next => rfl

end ScriptHost
