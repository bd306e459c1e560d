import Mathlib.Data.Nat.Digits.Defs
import ScriptHost.Severity.Mask

set_option autoImplicit false

namespace ScriptHost.Mask

structure Blanks where
  text : Bytes
  areBlank : ∀ b ∈ text, isBlank b

inductive Denotes (word : Bytes) : Severity → Prop
  | number (n : Nat) (some_digit : word ≠ []) (digits : ∀ b ∈ word, isDigit b)
      (decimal : Nat.ofDigits 10 (word.reverse.map fun b => b.toNat - 0x30) = n)
      (fits : n < 2 ^ 63) : Denotes word ⟨Int64.ofNat n⟩
  | name (s : Severity) (listed : (s, word.asciiUpper) ∈ Severity.names) : Denotes word s

structure Word where
  text : Bytes
  value : Severity
  denotes : Denotes text value

inductive Operand where
  | word (before : Blanks) (w : Word)
  | complement (before : Blanks) (operand : Operand)

namespace Operand

def text : Operand → Bytes
  | word before w => before.text ++ w.text
  | complement before operand => before.text ++ 0x7e :: operand.text

def value : Operand → Severity
  | word _ w => w.value
  | complement _ operand => operand.value.complement

end Operand

def Operator.byte : Operator → UInt8
  | union => 0x7c
  | inter => 0x26
  | symmDiff => 0x5e

structure Application where
  before : Blanks
  operator : Operator
  operand : Operand

def Application.text (a : Application) : Bytes :=
  a.before.text ++ a.operator.byte :: a.operand.text

def Application.apply (left : Severity) (a : Application) : Severity :=
  a.operator.apply left a.operand.value

structure Expression where
  first : Operand
  rest : List Application
  after : Blanks

namespace Expression

def text (e : Expression) : Bytes :=
  e.first.text ++ (e.rest.flatMap Application.text ++ e.after.text)

def value (e : Expression) : Severity := e.rest.foldl Application.apply e.first.value

end Expression

section Bytes

theorem forall_byte {P : UInt8 → Prop} (each : ∀ i : Fin 256, P (UInt8.ofFin i)) (b : UInt8) : P b :=
  each b.toFin

theorem not_word_of_blank (b : UInt8) : isBlank b → isWordByte b = false := by
  revert b
  apply forall_byte
  decide +kernel

theorem isWordByte_of_digit {b : UInt8} (digit : isDigit b) : isWordByte b := by
  simp [isWordByte, digit]

theorem isWordByte_of_upper (b : UInt8)
    (upper : isWordByte (if 0x61 ≤ b ∧ b ≤ 0x7a then b - 32 else b)) : isWordByte b := by
  split at upper
  next small => simp [isWordByte, isLetter, small.1, small.2]
  next => exact upper

theorem Operator.byte_plain (o : Operator) :
    isBlank o.byte = false ∧ isWordByte o.byte = false := by
  cases o <;> decide

theorem Operator.ofByte?_byte (o : Operator) : ofByte? o.byte = some o := by
  cases o <;> rfl

theorem Operator.ofByte?_eq {b : UInt8} {o : Operator} (read : ofByte? b = some o) : b = o.byte := by
  unfold ofByte? at read
  split at read
  next same => cases read; exact same
  split at read
  next same => cases read; exact same
  split at read
  next same => cases read; exact same
  next => cases read

end Bytes

section Words

variable {word : Bytes} {v : Severity}

theorem listed_word : ∀ p ∈ Severity.names, p.2 ≠ [] ∧ p.2.all isWordByte ∧ !p.2.all isDigit := by
  decide +kernel

theorem named?_listed : ∀ p ∈ Severity.names, Severity.named? p.2 = some p.1 := by
  decide +kernel

theorem listed_of_named? {name : Bytes} (found : Severity.named? name = some v) :
    (v, name) ∈ Severity.names := by
  obtain ⟨⟨s, own⟩, first, rfl⟩ := Option.map_eq_some_iff.1 found
  obtain rfl : own = name := by simpa using List.find?_some first
  exact List.mem_of_find?_eq_some first

theorem decimal_eq_foldl (word : Bytes) :
    Nat.ofDigits 10 (word.reverse.map fun b => b.toNat - 0x30) =
      word.foldl (fun n b => 10 * n + (b.toNat - 0x30)) 0 := by
  rw [Nat.ofDigits_eq_foldr, List.foldr_map, List.foldr_reverse]
  simp [Nat.add_comm]

theorem isDigit_upper {b : UInt8} (digit : isDigit b) :
    (if 0x61 ≤ b ∧ b ≤ 0x7a then b - 32 else b) = b := by
  have small : ¬ 0x61 ≤ b := by
    simp only [isDigit, Bool.and_eq_true, decide_eq_true_eq, UInt8.le_iff_toNat_le] at *
    simp at digit
    simp
    omega
  simp [small]

theorem not_digits_of_listed {s : Severity} (listed : (s, word.asciiUpper) ∈ Severity.names) :
    word.all isDigit = false := by
  obtain ⟨-, -, upper⟩ := listed_word _ listed
  by_contra digits
  rw [Bool.not_eq_false] at digits
  -- digits have no upper case, so the name itself would be a number
  have same : word.asciiUpper = word := by
    apply (List.map_congr_left fun b member => ?_).trans (List.map_id word)
    exact isDigit_upper (List.all_eq_true.1 digits b member)
  simp [same, digits] at upper

theorem Denotes.isWord (denotes : Denotes word v) : word ≠ [] ∧ ∀ b ∈ word, isWordByte b := by
  cases denotes with
  | number n some_digit digits =>
    exact ⟨some_digit, fun b member => isWordByte_of_digit (digits b member)⟩
  | name s listed =>
    obtain ⟨nonempty, upper, -⟩ := listed_word _ listed
    refine ⟨fun empty => nonempty (by simp [empty, Bytes.asciiUpper]), fun b member => ?_⟩
    apply isWordByte_of_upper
    simp only [Bytes.asciiUpper, List.all_map, List.all_eq_true] at upper
    exact upper b member

theorem wordValue_eq_ok_iff (nonempty : word ≠ []) : wordValue word = .ok v ↔ Denotes word v := by
  constructor
  next =>
    intro read
    unfold wordValue at read
    split at read
    next n number =>
      cases read
      simp only [numeral?, Option.ite_none_right_eq_some, Bool.and_eq_true, decide_eq_true_eq,
        List.all_eq_true, Option.some.injEq] at number
      obtain ⟨⟨digits, fits⟩, rfl⟩ := number
      exact .number _ nonempty digits (decimal_eq_foldl word) fits
    next =>
      split at read
      next s found => cases read; exact .name v (listed_of_named? found)
      next => cases read
  next =>
    intro denotes
    cases denotes with
    | number n some_digit digits decimal fits =>
      rw [decimal_eq_foldl] at decimal
      simp [wordValue, numeral?, decimal, fits, List.all_eq_true.2 digits]
    | name s listed =>
      have found := named?_listed _ listed
      simp [wordValue, numeral?, not_digits_of_listed listed, found]

end Words

section Reading

variable {state state' state'' : State} {text rest after : Bytes} {v : Severity}

def Leads (state : State) (text : Bytes) (state' : State) (rest : Bytes) : Prop :=
  ∀ position, ∃ position', run state position text = run state' position' rest

theorem Leads.refl (state : State) (text : Bytes) : Leads state text state text :=
  fun position => ⟨position, rfl⟩

theorem Leads.trans (first : Leads state text state' rest) (last : Leads state' rest state'' after) :
    Leads state text state'' after := by
  intro position
  obtain ⟨between, same⟩ := first position
  obtain ⟨position', same'⟩ := last between
  exact ⟨position', same.trans same'⟩

theorem Leads.step {b : UInt8} (one : ∀ position, step state b position = .ok state') :
    Leads state (b :: rest) state' rest := by
  intro position
  exact ⟨position + 1, by simp [run, one, bind, Except.bind]⟩

theorem leads_blanks (skips : ∀ b position, isBlank b → step state b position = .ok state)
    (blanks : Blanks) : Leads state (blanks.text ++ rest) state rest := by
  obtain ⟨text, areBlank⟩ := blanks
  induction text with
  | nil => exact .refl state rest
  | cons b text ih =>
    have first : isBlank b := areBlank b (by simp)
    have others := ih fun d member => areBlank d (by simp [member])
    exact .trans (.step fun position => skips b position first) others

theorem leads_to_operand (p : Pending) (blanks : Blanks) :
    Leads (.operand p) (blanks.text ++ rest) (.operand p) rest := by
  apply leads_blanks
  intro b position blank
  simp [step, blank]

theorem leads_to_operator (value : Severity) (blanks : Blanks) :
    Leads (.operator value) (blanks.text ++ rest) (.operator value) rest := by
  apply leads_blanks
  intro b position blank
  simp [step, stepOperator, blank]

def EndsWord (text : Bytes) : Prop := ∀ b ∈ text.head?, isWordByte b = false

theorem leads_word (p : Pending) (read more : Bytes) (isWord : ∀ b ∈ more, isWordByte b)
    (ends : EndsWord rest) (known : wordValue (read.reverse ++ more) = .ok v) :
    Leads (.word p read) (more ++ rest) (.operator (p.resolve v)) rest := by
  induction more generalizing read with
  | nil =>
    -- the word is looked up at the end of the text, or at a byte that is not one of its own
    intro position
    rw [List.append_nil] at known
    refine ⟨position, ?_⟩
    cases rest with
    | nil => simp [run, finish, known, bind, Except.bind, pure, Except.pure]
    | cons b rest =>
      have other := ends b rfl
      simp [run, step, other, known, bind, Except.bind]
  | cons b more ih =>
    have first : isWordByte b := isWord b (by simp)
    have others := ih (b :: read) (fun d member => isWord d (by simp [member])) (by simpa using known)
    exact .trans (.step fun position => by simp [step, first]) others

theorem Pending.resolve_complement (p : Pending) (v : Severity) :
    Pending.resolve { p with complements := p.complements + 1 } v = p.resolve v.complement := by
  have inside (n : Nat) : Nat.repeat Severity.complement (n + 1) v =
      Nat.repeat Severity.complement n v.complement := by
    induction n with
    | zero => rfl
    | succ n ih => exact congrArg Severity.complement ih
  simp [resolve, inside]

theorem leads_operand (o : Operand) (p : Pending) (ends : EndsWord rest) :
    Leads (.operand p) (o.text ++ rest) (.operator (p.resolve o.value)) rest := by
  induction o generalizing p with
  | word before w =>
    rw [Operand.text, List.append_assoc]
    apply (leads_to_operand p before).trans
    obtain ⟨nonempty, isWord⟩ := w.denotes.isWord
    have known := (wordValue_eq_ok_iff nonempty).2 w.denotes
    obtain ⟨b, more, spelled⟩ := List.exists_cons_of_ne_nil nonempty
    rw [spelled] at isWord known ⊢
    have first : isWordByte b := isWord b (by simp)
    have others := leads_word p [b] more (fun d member => isWord d (by simp [member])) ends known
    refine .trans (.step fun position => ?_) others
    have visible : isBlank b = false := by
      by_contra blank
      simp [not_word_of_blank b (by simpa using blank)] at first
    have plain : b ≠ 0x7e := by
      rintro rfl
      cases first
    simp [step, visible, plain, first]
  | complement before operand ih =>
    rw [Operand.text, List.append_assoc]
    apply (leads_to_operand p before).trans
    have inner := ih { p with complements := p.complements + 1 }
    rw [p.resolve_complement] at inner
    exact .trans (.step fun position => rfl) inner

theorem endsWord_blanks (blanks : Blanks) (ends : EndsWord rest) : EndsWord (blanks.text ++ rest) := by
  obtain ⟨text, areBlank⟩ := blanks
  cases text with
  | nil => exact ends
  | cons b text =>
    intro d same
    cases same
    exact not_word_of_blank b (areBlank b (by simp))

theorem endsWord_rest (applications : List Application) (after : Blanks) :
    EndsWord (applications.flatMap Application.text ++ after.text) := by
  cases applications with
  | nil =>
    have last : EndsWord [] := by simp [EndsWord]
    simpa using endsWord_blanks after last
  | cons a applications =>
    simp only [List.flatMap_cons, Application.text, List.append_assoc]
    apply endsWord_blanks
    intro b same
    cases same
    exact a.operator.byte_plain.2

theorem leads_rest (applications : List Application) (after : Blanks) (value : Severity) :
    Leads (.operator value) (applications.flatMap Application.text ++ after.text)
      (.operator (applications.foldl Application.apply value)) [] := by
  induction applications generalizing value with
  | nil =>
    have last : Leads (.operator value) (after.text ++ []) _ [] := leads_to_operator value after
    simpa using last
  | cons a applications ih =>
    simp only [List.flatMap_cons, Application.text, List.append_assoc, List.cons_append]
    apply (leads_to_operator value a.before).trans
    have started (position : Nat) :
        step (.operator value) a.operator.byte position = .ok (.operand ⟨some (value, a.operator), 0⟩) := by
      simp [step, stepOperator, a.operator.byte_plain.1, a.operator.ofByte?_byte]
    have operand := leads_operand a.operand ⟨some (value, a.operator), 0⟩
      (endsWord_rest applications after)
    exact .trans (.step started) (operand.trans (ih _))

theorem parse_text (e : Expression) : parse e.text = .ok e.value := by
  have first := leads_operand e.first ⟨none, 0⟩ (endsWord_rest e.rest e.after)
  obtain ⟨position, same⟩ := first.trans (leads_rest e.rest e.after _) 0
  exact same

end Reading

section Spelling

variable {state state' : State} {text : Bytes} {v : Severity} {b : UInt8}

def Blanks.none : Blanks := ⟨[], by simp⟩

def Blanks.cons (b : UInt8) (blank : isBlank b) (blanks : Blanks) : Blanks :=
  ⟨b :: blanks.text, by simpa [blank] using blanks.areBlank⟩

def Operand.indent (b : UInt8) (blank : isBlank b) : Operand → Operand
  | word before w => word (before.cons b blank) w
  | complement before operand => complement (before.cons b blank) operand

theorem Operand.text_indent (blank : isBlank b) (o : Operand) : (o.indent b blank).text = b :: o.text := by
  cases o <;> rfl

theorem Operand.value_indent (blank : isBlank b) (o : Operand) : (o.indent b blank).value = o.value := by
  cases o <;> rfl

def State.Completes (text : Bytes) (v : Severity) : State → Prop
  | operand p => ∃ (o : Operand) (rest : List Application) (after : Blanks),
      text = o.text ++ (rest.flatMap Application.text ++ after.text) ∧
        rest.foldl Application.apply (p.resolve o.value) = v
  | word p read => read ≠ [] →
      ∃ (w : Word) (more : Bytes) (rest : List Application) (after : Blanks),
        w.text = read.reverse ++ more ∧
          text = more ++ (rest.flatMap Application.text ++ after.text) ∧
            rest.foldl Application.apply (p.resolve w.value) = v
  | operator left => ∃ (rest : List Application) (after : Blanks),
      text = rest.flatMap Application.text ++ after.text ∧ rest.foldl Application.apply left = v

theorem completes_of_finish (result : finish state = .ok v) : state.Completes [] v := by
  cases state with
  | operand p => cases result
  | word p read =>
    intro nonempty
    simp only [finish, bind, Except.bind] at result
    split at result
    next => cases result
    next u known =>
      cases result
      have denotes := (wordValue_eq_ok_iff (by simpa using nonempty)).1 known
      exact ⟨⟨read.reverse, u, denotes⟩, [], [], .none, by simp, rfl, rfl⟩
  | operator left =>
    cases result
    exact ⟨[], .none, rfl, rfl⟩

theorem completes_of_stepOperator {left : Severity} (one : stepOperator left b = .ok state')
    (later : state'.Completes text v) : (State.operator left).Completes (b :: text) v := by
  unfold stepOperator at one
  split at one
  next blank =>
    cases one
    obtain ⟨rest, after, rfl, value⟩ := later
    cases rest with
    | nil => exact ⟨[], after.cons b blank, rfl, value⟩
    | cons a rest => exact ⟨{ a with before := a.before.cons b blank } :: rest, after, rfl, value⟩
  next =>
    split at one
    next operator read =>
      cases one
      obtain ⟨o, rest, after, rfl, value⟩ := later
      refine ⟨⟨.none, operator, o⟩ :: rest, after, ?_, value⟩
      simp [Application.text, Blanks.none, Operator.ofByte?_eq read]
    next => cases one

theorem completes_of_step {position : Nat} (one : step state b position = .ok state')
    (later : state'.Completes text v) : state.Completes (b :: text) v := by
  cases state with
  | operand p =>
    simp only [step] at one
    split at one
    next blank =>
      cases one
      obtain ⟨o, rest, after, rfl, value⟩ := later
      refine ⟨o.indent b blank, rest, after, ?_, ?_⟩
      · simp [o.text_indent blank]
      · rwa [o.value_indent blank]
    split at one
    next tilde =>
      cases one
      obtain ⟨o, rest, after, rfl, value⟩ := later
      refine ⟨.complement .none o, rest, after, ?_, ?_⟩
      · simp [Operand.text, Blanks.none, tilde]
      · rwa [p.resolve_complement] at value
    split at one
    next =>
      cases one
      obtain ⟨w, more, rest, after, spelled, rfl, value⟩ := later (by simp)
      refine ⟨.word .none w, rest, after, ?_, value⟩
      simp [Operand.text, Blanks.none, spelled]
    next => cases one
  | word p read =>
    simp only [step] at one
    split at one
    next =>
      cases one
      intro nonempty
      obtain ⟨w, more, rest, after, spelled, rfl, value⟩ := later (by simp)
      exact ⟨w, b :: more, rest, after, by simp [spelled], rfl, value⟩
    next =>
      intro nonempty
      simp only [bind, Except.bind] at one
      split at one
      next => cases one
      next u known =>
        have denotes := (wordValue_eq_ok_iff (by simpa using nonempty)).1 known
        -- the word has ended before this byte, which is read as after any operand
        obtain ⟨rest, after, same, value⟩ := completes_of_stepOperator one later
        exact ⟨⟨read.reverse, u, denotes⟩, [], rest, after, by simp, same, value⟩
  | operator left => exact completes_of_stepOperator one later

theorem completes_of_run {position : Nat} (result : run state position text = .ok v) :
    state.Completes text v := by
  induction text generalizing state position with
  | nil => exact completes_of_finish result
  | cons b text ih =>
    simp only [run, bind, Except.bind] at result
    split at result
    next => cases result
    next state' one => exact completes_of_step one (ih result)

end Spelling

section Values

variable {s a b : Severity}

theorem nonneg_iff : 0 ≤ s.bits ↔ s.bits.toBitVec.msb = false := by
  rw [Int64.le_iff_toInt_le, BitVec.msb_eq_toInt, decide_eq_false_iff_not, Int.not_lt]
  rfl

theorem Denotes.nonneg {word : Bytes} (denotes : Denotes word s) : 0 ≤ s.bits := by
  cases denotes with
  | number n _ _ _ fits =>
    rw [Int64.le_iff_toInt_le, Int64.toInt_ofNat_of_lt (by simpa using fits)]
    simp
  | name s listed =>
    have each : ∀ p ∈ Severity.names, 0 ≤ p.1.bits := by decide +kernel
    exact each _ listed

theorem nonneg_complement (s : Severity) : 0 ≤ s.complement.bits := by
  have all : Severity.all.bits.toBitVec.msb = false := by decide
  rw [nonneg_iff]
  simp [Severity.complement, all]

theorem Operator.nonneg (o : Operator) (left : 0 ≤ a.bits) (right : 0 ≤ b.bits) :
    0 ≤ (o.apply a b).bits := by
  rw [nonneg_iff] at *
  cases o with
  | union => simp [Operator.apply, Severity.union, left, right]
  | inter => simp [Operator.apply, Severity.inter, left]
  | symmDiff => simp [Operator.apply, Severity.symmDiff, left, right]

theorem Operand.nonneg (o : Operand) : 0 ≤ o.value.bits := by
  cases o with
  | word before w => exact w.denotes.nonneg
  | complement before operand => exact nonneg_complement operand.value

theorem Expression.nonneg (e : Expression) : 0 ≤ e.value.bits := by
  obtain ⟨first, rest, after⟩ := e
  have combined (left : Severity) (known : 0 ≤ left.bits) :
      0 ≤ (rest.foldl Application.apply left).bits := by
    induction rest generalizing left with
    | nil => exact known
    | cons a rest ih => exact ih _ (a.operator.nonneg known a.operand.nonneg)
  exact combined first.value first.nonneg

end Values

/-- Reading accepts the spellings of trees and nothing else. The value is that of the tree, and never
negative. The words of a tree are the longest runs of word bytes in its spelling, since a blank, an
operator or the end follows each of them. -/
theorem parse_reads_trees :
    (∀ text v, parse text = .ok v ↔ ∃ e : Expression, e.text = text ∧ e.value = v) ∧
      ∀ e : Expression, parse e.text = .ok e.value ∧ 0 ≤ e.value.bits := by
  refine ⟨fun text v => ⟨fun result => ?_, ?_⟩, fun e => ⟨parse_text e, e.nonneg⟩⟩
  · obtain ⟨first, rest, after, spelled, value⟩ := completes_of_run result
    exact ⟨⟨first, rest, after⟩, spelled.symm, value⟩
  · rintro ⟨e, rfl, rfl⟩
    exact parse_text e

example : parse "4 | 3 & 8" = .ok ⟨0⟩ := by decide +kernel

end ScriptHost.Mask
