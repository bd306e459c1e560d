import ScriptHost.Registry.ConstantRegistry
import ScriptHost.Scope

set_option autoImplicit false

namespace ScriptHost

theorem eq_of_countP_le_one {α : Type} {P : α → Bool} {items before before' after after' : List α}
    {a a' : α} (few : items.countP P ≤ 1) (split : items = before ++ a :: after)
    (split' : items = before' ++ a' :: after') (holds : P a) (holds' : P a') : before = before' := by
  subst split
  rw [List.countP_append, List.countP_cons_of_pos holds] at few
  rcases List.append_eq_append_iff.1 split' with ⟨more, rfl, rest⟩ | ⟨more, rfl, rest⟩ <;>
    cases more with
    | nil => simp
    | cons b more =>
      obtain ⟨rfl, same⟩ := List.cons.inj rest
      simp [same, holds'] at few
      omega

theorem split_concat {α : Type} {items before after : List α} {last a : α}
    (same : items ++ [last] = before ++ a :: after) :
    before = items ∧ a = last ∧ after = [] ∨
      ∃ rest, after = rest ++ [last] ∧ items = before ++ a :: rest := by
  rcases List.eq_nil_or_concat after with rfl | ⟨rest, other, rfl⟩
  · obtain ⟨rfl, ends⟩ := List.append_inj' same rfl
    exact .inl ⟨rfl, (List.singleton_inj.1 ends).symm, rfl⟩
  · rw [List.concat_eq_append, ← List.cons_append, ← List.append_assoc] at same
    obtain ⟨rfl, ends⟩ := List.append_inj' same rfl
    exact .inr ⟨rest, by rw [List.concat_eq_append, List.singleton_inj.1 ends], rfl⟩

theorem getElem?_of_isPrefix {α : Type} {l m : List α} (longer : l <+: m) {i : Nat} {a : α}
    (there : l[i]? = some a) : m[i]? = some a := by
  obtain ⟨inside, here⟩ := List.getElem?_eq_some_iff.1 there
  rw [List.prefix_iff_getElem?.1 longer i inside, here]

theorem split_at {α : Type} {items : List α} {n : Nat} {p : α → Bool} (there : items[n]?.any p) :
    ∃ a, p a ∧ items = items.take n ++ a :: items.drop (n + 1) := by
  obtain ⟨a, found, holds⟩ := (Option.any_eq_true _ _).1 there
  obtain ⟨inside, rfl⟩ := List.getElem?_eq_some_iff.1 found
  exact ⟨_, holds, by simp⟩

theorem mem_of_mem_concat {α : Type} {before after : List α} {a b : α}
    (member : b ∈ before ++ [a]) :
    b ∈ before ++ a :: after := by
  rw [List.append_cons]
  exact List.mem_append_left _ member

theorem eq_ok_of_toOption {ε α : Type} {result : Except ε α} {a : α}
    (same : result.toOption = some a) : result = .ok a := by
  cases result with
  | error => cases same
  | ok => exact congrArg Except.ok (Option.some.inj same)

theorem eq_ok_pair_of_toOption {ε α τ : Type} {result : Except ε α × τ} {a : α}
    (same : result.1.toOption = some a) : result = (.ok a, result.2) :=
  Prod.ext (eq_ok_of_toOption same) rfl

theorem eq_error_pair_of_toOption {ε α τ : Type} {result : Except ε α × τ}
    (failed : result.1.toOption = none) : ∃ e, result = (.error e, result.2) := by
  obtain ⟨_ | _, _⟩ := result
  · exact ⟨_, rfl⟩
  · cases failed

namespace Pool

variable {kind : Kind} {α : Type}

def has (p : Pool kind α) (i : Id kind) : Bool := i.index < p.size

theorem has_iff (p : Pool kind α) (i : Id kind) : p.has i ↔ i.index < p.entries.size :=
  decide_eq_true_iff

theorem has_add (p : Pool kind α) (a : α) (i : Id kind) (known : p.has i) : (p.add a).has i := by
  rw [has_iff] at *
  simp only [add, Array.size_push]
  omega

theorem has_next_add (p : Pool kind α) (a : α) : (p.add a).has p.next := by
  simp [has_iff, add, next]

theorem has_of_has_add {p : Pool kind α} {a : α} {i : Id kind} (known : (p.add a).has i)
    (older : i ≠ p.next) : p.has i := by
  have apart : i.index ≠ p.entries.size := fun same => older (by cases i; simp_all [next])
  simp only [has_iff, add, Array.size_push] at *
  omega

theorem has_add_iff {p : Pool kind α} {a : α} {i : Id kind} :
    (p.add a).has i ↔ p.has i ∨ i = p.next := by
  refine ⟨fun there => ?_, fun known => ?_⟩
  · exact (Decidable.em (i = p.next)).symm.imp_left (has_of_has_add there)
  · rcases known with known | rfl
    · exact has_add p a i known
    · exact has_next_add p a

@[simp] theorem has_modify (p : Pool kind α) (i j : Id kind) (f : α → α) :
    (p.modify i f).has j = p.has j := by
  simp [has, size_modify]

theorem modify_of_not_has (p : Pool kind α) {i : Id kind} (unknown : ¬ p.has i) (f : α → α) :
    p.modify i f = p := by
  have outside : p.entries.size ≤ i.index := Nat.le_of_not_lt (mt (has_iff p i).2 unknown)
  refine congrArg Pool.mk (Array.ext_getElem? fun n => ?_)
  rw [Array.getElem?_modify]
  split
  next same => rw [← same, Array.getElem?_eq_none outside]; rfl
  next => rfl

theorem ne_next_of_has (p : Pool kind α) {i : Id kind} (known : p.has i) : i ≠ p.next := by
  rintro rfl
  simp [has_iff, next] at known

section Map

variable {β : Type}

def map (p : Pool kind α) (f : α → β) : Pool kind β := ⟨p.entries.map f⟩

theorem get_map [Inhabited α] [Inhabited β] (p : Pool kind α) {f : α → β}
    (other : f default = default) (i : Id kind) : (p.map f).get i = f (p.get i) := by
  unfold get get? map
  cases there : p.entries[i.index]? with
  | none => simp [there, other]
  | some a => simp [there]

theorem map_modify (p : Pool kind α) {f : α → β} {g : α → α} {g' : β → β}
    (commutes : ∀ a, f (g a) = g' (f a)) (i : Id kind) :
    (p.modify i g).map f = (p.map f).modify i g' := by
  refine congrArg Pool.mk (Array.ext_getElem? fun n => ?_)
  simp only [map, modify, Array.getElem?_map, Array.getElem?_modify]
  split
  next => cases p.entries[n]? <;> simp [commutes]
  next => rfl

theorem map_add (p : Pool kind α) (f : α → β) (a : α) : (p.add a).map f = (p.map f).add (f a) :=
  congrArg Pool.mk (Array.map_push ..)

theorem next_map (p : Pool kind α) (f : α → β) : (p.map f).next = p.next :=
  congrArg Id.mk (Array.size_map ..)

@[simp] theorem has_map (p : Pool kind α) (f : α → β) (i : Id kind) : (p.map f).has i = p.has i :=
  congrArg (decide <| i.index < ·) (Array.size_map ..)

theorem map_modify_of_keeps (p : Pool kind α) {f : α → β} {g : α → α}
    (keeps : ∀ a, f (g a) = f a) (i : Id kind) : (p.modify i g).map f = p.map f := by
  refine congrArg Pool.mk (Array.ext_getElem? fun n => ?_)
  simp only [modify, Array.getElem?_map, Array.getElem?_modify]
  split
  next => cases p.entries[n]? <;> simp [keeps]
  next => rfl

end Map

def ids (p : Pool kind α) : List (Id kind) := (List.range p.size).map Id.mk

theorem mem_ids {p : Pool kind α} {i : Id kind} : i ∈ p.ids ↔ p.has i := by
  rw [ids, List.mem_map, has_iff]
  constructor
  · rintro ⟨n, inside, rfl⟩
    exact List.mem_range.1 inside
  · exact fun inside => ⟨i.index, List.mem_range.2 inside, rfl⟩

theorem nodup_ids (p : Pool kind α) : p.ids.Nodup :=
  List.Pairwise.map _ (fun _ _ apart same => apart (congrArg Id.index same)) List.nodup_range

theorem ids_add (p : Pool kind α) (a : α) : (p.add a).ids = p.ids ++ [p.next] := by
  simp [ids, size, add, next, List.range_succ]

@[simp] theorem ids_modify (p : Pool kind α) (i : Id kind) (f : α → α) :
    (p.modify i f).ids = p.ids := by
  rw [ids, size_modify, ids]

@[simp] theorem ids_map {β : Type} (p : Pool kind α) (f : α → β) : (p.map f).ids = p.ids := by
  simp [ids, size, map]

theorem modify_modify (p : Pool kind α) (i : Id kind) (f g : α → α) :
    (p.modify i f).modify i g = p.modify i fun a => g (f a) := by
  refine congrArg Pool.mk (Array.ext_getElem? fun n => ?_)
  simp only [Array.getElem?_modify, Pool.modify]
  split <;> simp [Function.comp_def]

variable [Inhabited α]

theorem get_add_of_has (p : Pool kind α) (a : α) {i : Id kind} (known : p.has i) :
    (p.add a).get i = p.get i := by
  rw [get, get, get?_add_of_lt p a i ((has_iff p i).1 known)]

@[simp] theorem get_add_next (p : Pool kind α) (a : α) : (p.add a).get p.next = a := by
  rw [get, get?_add_next, Option.getD_some]

theorem get_of_not_has (p : Pool kind α) {i : Id kind} (unknown : ¬ p.has i) :
    p.get i = default := by
  have outside : p.entries.size ≤ i.index := Nat.le_of_not_lt (mt (has_iff p i).2 unknown)
  simp [get, get?, Array.getElem?_eq_none outside]

theorem get_of_all {p : Pool kind α} {P : α → Prop} (all : ∀ a ∈ p.entries, P a) (other : P default)
    (i : Id kind) : P (p.get i) := by
  unfold get get?
  cases there : p.entries[i.index]? with
  | none => exact other
  | some a => exact all a (Array.mem_of_getElem? there)

theorem get_add (p : Pool kind α) (a : α) (i : Id kind) :
    (p.add a).get i = if i = p.next then a else p.get i := by
  split
  next same => rw [same, get_add_next]
  next different =>
    by_cases known : p.has i
    · exact get_add_of_has p a known
    · have unknown : ¬ (p.add a).has i := fun there => known (has_of_has_add there different)
      rw [get_of_not_has _ unknown, get_of_not_has _ known]

theorem get_of_isPrefix {β : Type} {p q : Pool kind α} {view : α → β}
    (kept : p.entries.toList.map view <+: q.entries.toList.map view) {i : Id kind}
    (known : p.has i) : view (q.get i) = view (p.get i) := by
  have inside : i.index < p.entries.size := (has_iff p i).1 known
  have here : (p.entries.toList.map view)[i.index]? = some (view p.entries[i.index]) := by simp [inside]
  have there : q.entries[i.index]?.map view = some (view p.entries[i.index]) := by
    simpa using getElem?_of_isPrefix kept here
  obtain ⟨b, found, viewed⟩ := Option.map_eq_some_iff.1 there
  rw [get, get?, found, get, get?, Array.getElem?_eq_getElem inside]
  exact viewed

theorem get_modify_self (p : Pool kind α) (i : Id kind) (f : α → α) (known : p.has i) :
    (p.modify i f).get i = f (p.get i) := by
  have inside : i.index < p.entries.size := (has_iff p i).1 known
  rw [get, get, get?_modify_self]
  simp [get?, Array.getElem?_eq_getElem inside]

theorem get_modify_of_ne (p : Pool kind α) {i j : Id kind} (f : α → α) (apart : i ≠ j) :
    (p.modify i f).get j = p.get j := by
  rw [get, get, get?_modify_of_ne p f apart]

theorem get_modify (p : Pool kind α) (i j : Id kind) (f : α → α) :
    (p.modify i f).get j = if i = j ∧ p.has i then f (p.get j) else p.get j := by
  split
  next both => obtain ⟨rfl, known⟩ := both; exact get_modify_self p i f known
  next neither =>
    by_cases same : i = j
    · subst same
      have unknown : ¬ p.has i := fun known => neither ⟨rfl, known⟩
      rw [get_of_not_has _ (by simpa using unknown), get_of_not_has _ unknown]
    · exact get_modify_of_ne p f same

theorem modify_congr (p : Pool kind α) (i : Id kind) {f g : α → α}
    (same : f (p.get i) = g (p.get i)) : p.modify i f = p.modify i g := by
  refine congrArg Pool.mk (Array.ext_getElem? fun n => ?_)
  simp only [Array.getElem?_modify]
  split
  next at_n =>
    subst at_n
    cases there : p.entries[i.index]? with
    | none => rfl
    | some a =>
      have here : p.get i = a := by simp [get, get?, there]
      simpa [here] using same
  next => rfl

theorem modify_eq_self (p : Pool kind α) (i : Id kind) {f : α → α}
    (same : p.has i → f (p.get i) = p.get i) : p.modify i f = p := by
  refine congrArg Pool.mk (Array.ext_getElem? fun n => ?_)
  rw [Array.getElem?_modify]
  split
  next at_n =>
    subst at_n
    cases there : p.entries[i.index]? with
    | none => rfl
    | some a =>
      have known : p.has i := (p.has_iff i).2 (Array.getElem?_eq_some_iff.1 there).1
      have here : p.get i = a := by simp [get, get?, there]
      simpa [here] using same known
  next => rfl

theorem modify_keeps {β : Type} (p : Pool kind α) (i j : Id kind) (f : α → α) (view : α → β)
    (keeps : ∀ a, view (f a) = view a) : view ((p.modify i f).get j) = view (p.get j) := by
  rw [get_modify]
  split <;> simp [keeps]

end Pool

theorem Bytes.precedes_iff (s t : Bytes) : precedes s t ↔ s ≤ t := by
  induction s generalizing t with
  | nil => simp [precedes]
  | cons a s ih =>
    cases t with
    | nil => simp [precedes]
    | cons b t =>
      rw [precedes, List.cons_le_cons_iff, ← ih]
      by_cases same : a = b
      · simp [same, UInt8.lt_irrefl]
      · simp [same]

namespace Table

variable {α : Type}

theorem lookup_eq_none (key : Bytes) (entries : List (Bytes × α)) :
    lookup key entries = none ↔ key ∉ entries.map Prod.fst := by
  induction entries with
  | nil => simp [lookup]
  | cons e rest ih =>
    obtain ⟨k, a⟩ := e
    by_cases same : k = key
    · simp [lookup, same]
    · simp [lookup, same, ih, Ne.symm same]

theorem lookup_filter (p : Bytes → Bool) (key : Bytes) (entries : List (Bytes × α)) :
    lookup key (entries.filter (p ·.1)) = if p key then lookup key entries else none := by
  induction entries with
  | nil => simp [lookup]
  | cons e rest ih => grind [lookup]

theorem get?_foldl_insert (t : Table α) (entries : List (Bytes × α)) (key : Bytes)
    (distinct : (entries.map Prod.fst).Nodup) :
    (entries.foldl (fun t e => t.insert e.1 e.2) t).get? key =
      (lookup key entries).or (t.get? key) := by
  induction entries generalizing t with
  | nil => simp [lookup]
  | cons e rest ih =>
    obtain ⟨k, a⟩ := e
    rw [List.map_cons, List.nodup_cons] at distinct
    rw [List.foldl_cons, ih _ distinct.2, get?_insert]
    by_cases same : k = key
    · subst same
      have absent : lookup k rest = none := (lookup_eq_none k rest).2 distinct.1
      simp [lookup, absent]
    · simp [lookup, same, Ne.symm same]

theorem get?_overlay (t other : Table α) (key : Bytes) :
    (t.overlay other).get? key = (other.get? key).or (t.get? key) :=
  get?_foldl_insert t other.entries key other.distinct

def KeysIn (t u : Table α) : Prop := ∀ key, t.contains key → u.contains key

namespace KeysIn

theorem refl (t : Table α) : t.KeysIn t := fun _ => id

theorem of_eq {t u : Table α} (same : u = t) : t.KeysIn u := same ▸ refl t

theorem trans {t u v : Table α} (first : t.KeysIn u) (rest : u.KeysIn v) : t.KeysIn v :=
  fun key => rest key ∘ first key

theorem insert (t : Table α) (key : Bytes) (a : α) : t.KeysIn (t.insert key a) := by
  intro k there
  rw [contains, get?_insert]
  split
  next => rfl
  next => exact there

theorem overlay (t other : Table α) : t.KeysIn (t.overlay other) := by
  intro key there
  have found : (t.get? key).isSome := there
  rw [contains, get?_overlay, Option.isSome_or, found, Bool.or_true]

end KeysIn

def Within (t u : Table α) : Prop := ∀ key a, t.get? key = some a → u.get? key = some a

namespace Within

theorem refl (t : Table α) : t.Within t := fun _ _ => id

theorem of_eq {t u : Table α} (same : u = t) : t.Within u := same ▸ refl t

theorem trans {t u v : Table α} (first : t.Within u) (rest : u.Within v) : t.Within v :=
  fun key a found => rest key a (first key a found)

theorem insert {t : Table α} {key : Bytes} (a : α) (absent : t.get? key = none) :
    t.Within (t.insert key a) := by
  intro k b found
  have apart : k ≠ key := by
    rintro rfl
    exact nomatch found.symm.trans absent
  rw [get?_insert, if_neg apart]
  exact found

end Within

theorem lookup_mem {key : Bytes} {a : α} {entries : List (Bytes × α)}
    (found : lookup key entries = some a) : (key, a) ∈ entries := by
  induction entries with
  | nil => simp [lookup] at found
  | cons e rest ih =>
    obtain ⟨k, b⟩ := e
    by_cases same : k = key
    · simp_all [lookup]
    · simp [lookup, same] at found
      exact List.mem_cons_of_mem _ (ih found)

theorem replace_of_absent {key : Bytes} (a : α) {entries : List (Bytes × α)}
    (absent : lookup key entries = none) : replace key a entries = entries ++ [(key, a)] := by
  induction entries with
  | nil => rfl
  | cons e rest ih =>
    obtain ⟨k, b⟩ := e
    by_cases same : k = key
    · simp [lookup, same] at absent
    · rw [lookup, if_neg same] at absent
      rw [replace, if_neg same, ih absent, List.cons_append]

theorem entries_insert {t : Table α} {key : Bytes} (a : α) (absent : t.get? key = none) :
    (t.insert key a).entries = t.entries ++ [(key, a)] :=
  replace_of_absent a absent

theorem lookup_of_mem {key : Bytes} {a : α} {entries : List (Bytes × α)}
    (distinct : (entries.map Prod.fst).Nodup) (member : (key, a) ∈ entries) :
    lookup key entries = some a := by
  induction entries with
  | nil => simp at member
  | cons e rest ih =>
    obtain ⟨k, b⟩ := e
    rw [List.map_cons, List.nodup_cons] at distinct
    rcases List.mem_cons.1 member with same | later
    · cases same
      simp [lookup]
    · have apart : k ≠ key := fun same =>
        distinct.1 (same ▸ List.mem_map.2 ⟨_, later, rfl⟩)
      simp [lookup, apart, ih distinct.2 later]

theorem mem_values {t : Table α} {a : α} : a ∈ t.values ↔ ∃ key, t.get? key = some a := by
  constructor
  · intro member
    obtain ⟨⟨key, _⟩, inside, rfl⟩ := List.mem_map.1 member
    exact ⟨key, lookup_of_mem t.distinct inside⟩
  · rintro ⟨key, found⟩
    exact List.mem_map.2 ⟨_, lookup_mem found, rfl⟩

theorem contains_iff {t : Table α} {key : Bytes} : t.contains key ↔ ∃ a, t.get? key = some a :=
  Option.isSome_iff_exists

theorem sorted_perm (t : Table α) : t.sorted.Perm t.entries := List.mergeSort_perm _ _

@[simp] theorem mem_sorted {t : Table α} {key : Bytes} {a : α} :
    (key, a) ∈ t.sorted ↔ t.get? key = some a := by
  rw [(sorted_perm t).mem_iff]
  exact ⟨lookup_of_mem t.distinct, lookup_mem⟩

@[simp] theorem length_sorted (t : Table α) : t.sorted.length = t.size :=
  (sorted_perm t).length_eq

theorem sorted_pairwise (t : Table α) : t.sorted.Pairwise fun e f => e.1 < f.1 := by
  have ascending : t.sorted.Pairwise fun e f => Bytes.precedes e.1 f.1 := by
    apply List.pairwise_mergeSort
    · intro a b c first second
      rw [Bytes.precedes_iff] at *
      exact List.le_trans first second
    · intro a b
      simpa [Bytes.precedes_iff] using List.le_total a.1 b.1
  have distinct : (t.sorted.map Prod.fst).Nodup := ((sorted_perm t).map _).nodup_iff.2 t.distinct
  have apart : t.sorted.Pairwise fun e f => e.1 ≠ f.1 := List.pairwise_map.1 distinct
  refine (ascending.and apart).imp fun ⟨before, different⟩ => ?_
  rw [Bytes.precedes_iff] at before
  exact (List.le_iff_lt_or_eq.1 before).resolve_right different

end Table

namespace Scope

variable {α : Type}

theorem enter_fst (t : Table α) (key : Bytes) (a : α) :
    (enter t key a).2.get? key = some (enter t key a).1 := by
  unfold enter
  cases found : t.get? key <;> simp [found]

theorem within_enter (t : Table α) (key : Bytes) (a : α) : t.Within (enter t key a).2 := by
  unfold enter
  split
  next => exact .refl t
  next absent => exact .insert a absent

theorem within_enterAll {β : Type} (key : β → Bytes) (value : β → α) (items : List β)
    (t : Table α) :
    t.Within (items.foldl (fun u b => (enter u (key b) (value b)).2) t) := by
  induction items generalizing t with
  | nil => exact .refl t
  | cons b rest ih => exact (within_enter t (key b) (value b)).trans (ih _)

end Scope

end ScriptHost
