import ScriptHost.Files.Path

set_option autoImplicit false

namespace ScriptHost

namespace Bytes

variable {separator : UInt8} {part s : Bytes}

theorem split_cons_separator (s : Bytes) :
    split separator (separator :: s) = [] :: split separator s := if_pos rfl

theorem split_cons_of_ne {b : UInt8} (other : b ≠ separator) {parts : List Bytes}
    (rest : split separator s = part :: parts) :
    split separator (b :: s) = (b :: part) :: parts := by
  rw [split, if_neg other, rest]

theorem split_ne_nil (separator : UInt8) (s : Bytes) : split separator s ≠ [] := by
  induction s with
  | nil => exact List.cons_ne_nil _ _
  | cons b s ih =>
    by_cases same : b = separator
    · rw [same, split_cons_separator]
      exact List.cons_ne_nil _ _
    · obtain ⟨part, parts, rest⟩ := List.exists_cons_of_ne_nil ih
      rw [split_cons_of_ne same rest]
      exact List.cons_ne_nil _ _

theorem split_append (s t : Bytes) :
    split separator (s ++ separator :: t) = split separator s ++ split separator t := by
  induction s with
  | nil => exact split_cons_separator t
  | cons b s ih =>
    by_cases same : b = separator
    · rw [same, List.cons_append, split_cons_separator, split_cons_separator, ih, List.cons_append]
    · obtain ⟨part, parts, rest⟩ := List.exists_cons_of_ne_nil (split_ne_nil separator s)
      rw [rest, List.cons_append] at ih
      rw [List.cons_append, split_cons_of_ne same ih, split_cons_of_ne same rest, List.cons_append]

theorem split_of_not_mem (whole : separator ∉ part) : split separator part = [part] := by
  induction part with
  | nil => rfl
  | cons b part ih =>
    rw [List.mem_cons, not_or] at whole
    exact split_cons_of_ne (Ne.symm whole.1) (ih whole.2)

theorem not_mem_of_mem_split (member : part ∈ split separator s) : separator ∉ part := by
  induction s generalizing part with
  | nil =>
    rw [List.mem_singleton.1 member]
    exact List.not_mem_nil
  | cons b s ih =>
    by_cases same : b = separator
    · rw [same, split_cons_separator] at member
      rcases List.mem_cons.1 member with rfl | later
      · exact List.not_mem_nil
      · exact ih later
    · obtain ⟨first, parts, rest⟩ := List.exists_cons_of_ne_nil (split_ne_nil separator s)
      rw [split_cons_of_ne same rest] at member
      rw [rest] at ih
      rcases List.mem_cons.1 member with rfl | later
      · rw [List.mem_cons, not_or]
        exact ⟨Ne.symm same, ih List.mem_cons_self⟩
      · exact ih (List.mem_cons_of_mem _ later)

theorem join_concat {parts : List Bytes} (nonempty : parts ≠ []) (last : Bytes) :
    join s (parts ++ [last]) = join s parts ++ s ++ last := by
  induction parts with
  | nil => exact absurd rfl nonempty
  | cons first rest ih =>
    cases rest with
    | nil => simp [join]
    | cons second more =>
      have later := ih (List.cons_ne_nil _ _)
      simp only [join, List.cons_append, List.intercalate_cons_cons, List.append_assoc] at later ⊢
      rw [later]

theorem split_join {parts : List Bytes} (nonempty : parts ≠ [])
    (whole : ∀ part ∈ parts, separator ∉ part) :
    split separator (join [separator] parts) = parts := by
  induction parts with
  | nil => exact absurd rfl nonempty
  | cons first rest ih =>
    obtain ⟨wholeFirst, wholeRest⟩ := List.forall_mem_cons.1 whole
    cases rest with
    | nil =>
      rw [join, List.intercalate_singleton]
      exact split_of_not_mem wholeFirst
    | cons second rest =>
      have later := ih (List.cons_ne_nil _ _) wholeRest
      rw [join, List.intercalate_cons_cons, List.append_assoc, List.singleton_append,
        split_append, split_of_not_mem wholeFirst, ← join, later, List.singleton_append]

end Bytes

namespace Path

structure IsName (c : Bytes) : Prop where
  nonempty : c ≠ []
  moves : c ≠ Bytes.ofString "."
  descends : c ≠ up
  whole : separator ∉ c

variable {names : List Bytes} {name path : Bytes}

theorem components_append (s t : Bytes) :
    components (s ++ separator :: t) = components s ++ components t := by
  rw [components, Bytes.split_append, List.filter_append]
  rfl

theorem components_join (proper : ∀ c ∈ names, IsName c) :
    components (Bytes.join [separator] names) = names := by
  by_cases empty : names = []
  · rw [empty]
    decide
  · rw [components, Bytes.split_join empty fun c member => (proper c member).whole]
    exact List.filter_eq_self.2 fun c member =>
      decide_eq_true ⟨(proper c member).nonempty, (proper c member).moves⟩

theorem components_name (proper : IsName name) : components name = [name] := by
  have alone := components_join (List.forall_mem_singleton.2 proper)
  rwa [Bytes.join, List.intercalate_singleton] at alone

theorem components_render (proper : ∀ c ∈ names, IsName c) :
    components (render true names) = names :=
  (components_append [] _).trans (components_join proper)

theorem isAbsolute_render (names : List Bytes) : isAbsolute (render true names) := rfl

theorem render_concat (proper : ∀ c ∈ names, IsName c) (name : Bytes) :
    ∃ before, render true (names ++ [name]) = before ++ separator :: name ∧
      components before = names ∧ isAbsolute (before ++ [separator]) ∧
      (render true names).length ≤ before.length + 1 := by
  by_cases empty : names = []
  · rw [empty]
    refine ⟨[], ?_, by decide, rfl, Nat.le_refl _⟩
    rw [List.nil_append, render, if_pos rfl, Bytes.join, List.intercalate_singleton]
    rfl
  · refine ⟨render true names, ?_, components_render proper, rfl, Nat.le_succ _⟩
    rw [render, if_pos rfl, Bytes.join_concat empty, List.append_assoc]
    rfl

theorem resolve_names (proper : ∀ c ∈ names, IsName c) (rooted : Bool) (position : List Bytes) :
    resolve rooted position names = names.reverse ++ position := by
  induction names generalizing position with
  | nil => rfl
  | cons c rest ih =>
    obtain ⟨first, later⟩ := List.forall_mem_cons.1 proper
    simp only [resolve, if_neg first.descends]
    rw [ih later, List.reverse_cons, List.append_assoc, List.singleton_append]

theorem clean_of_components (rooted : isAbsolute path) (proper : ∀ c ∈ names, IsName c)
    (made : components path = names) : clean path = render true names := by
  rw [clean, rooted, made, resolve_names proper, List.append_nil, List.reverse_reverse]

theorem isName_of_mem_resolve {position rest : List Bytes} (proper : ∀ c ∈ position, IsName c)
    (fit : ∀ c ∈ rest, c ≠ [] ∧ c ≠ Bytes.ofString "." ∧ separator ∉ c) :
    ∀ c ∈ resolve true position rest, IsName c := by
  induction rest generalizing position with
  | nil => exact proper
  | cons c rest ih =>
    obtain ⟨⟨nonempty, moves, whole⟩, later⟩ := List.forall_mem_cons.1 fit
    unfold resolve
    by_cases climbs : c = up
    · rw [if_pos climbs]
      cases position with
      | nil => exact ih proper later
      | cons last before =>
        obtain ⟨lastProper, beforeProper⟩ := List.forall_mem_cons.1 proper
        dsimp only
        rw [if_neg lastProper.descends]
        exact ih beforeProper later
    · rw [if_neg climbs]
      exact ih (List.forall_mem_cons.2 ⟨⟨nonempty, moves, climbs, whole⟩, proper⟩) later

theorem clean_rooted (rooted : isAbsolute path) :
    ∃ names, (∀ c ∈ names, IsName c) ∧ clean path = render true names := by
  refine ⟨(resolve true [] (components path)).reverse, fun c member => ?_, by rw [clean, rooted]⟩
  refine isName_of_mem_resolve (List.forall_mem_nil _) (fun c member => ?_) c
    (List.mem_reverse.1 member)
  obtain ⟨cut, kept⟩ := List.mem_filter.1 member
  obtain ⟨nonempty, moves⟩ := of_decide_eq_true kept
  exact ⟨nonempty, moves, Bytes.not_mem_of_mem_split cut⟩

theorem join_pair (rooted : isAbsolute path) (more : Bytes) :
    ∃ text, isAbsolute text ∧ components text = components path ++ components more ∧
      join [path, more] = clean text := by
  have first : path ≠ [] := by
    rintro rfl
    cases rooted
  by_cases empty : more = []
  · refine ⟨path, rooted, ?_, ?_⟩
    · rw [empty, show components [] = [] by decide, List.append_nil]
    · simp [join, empty, first, Bytes.join]
  · refine ⟨path ++ separator :: more, ?_, components_append _ _, ?_⟩
    · obtain ⟨b, rest, rfl⟩ := List.exists_cons_of_ne_nil first
      exact rooted
    · simp [join, empty, first, Bytes.join]

theorem join_name (proper : ∀ c ∈ names ++ [name], IsName c) :
    join [render true names, name] = render true (names ++ [name]) := by
  obtain ⟨before, last⟩ := List.forall_mem_append.1 proper
  obtain ⟨text, rooted, made, joined⟩ := join_pair (isAbsolute_render names) name
  rw [joined, clean_of_components rooted proper]
  rw [made, components_render before, components_name (last name List.mem_cons_self)]

theorem absolute_rooted {workingDirectory : Bytes}
    (rooted : isAbsolute path ∨ isAbsolute workingDirectory) :
    ∃ names, (∀ c ∈ names, IsName c) ∧ absolute workingDirectory path = render true names := by
  unfold absolute
  split
  next here => exact clean_rooted here
  next relative =>
    obtain ⟨text, below, -, joined⟩ := join_pair (rooted.resolve_left relative) path
    rw [joined]
    exact clean_rooted below

theorem parent_root : parent (render true []) = render true [] := by decide

theorem parent_concat (proper : ∀ c ∈ names ++ [name], IsName c) :
    parent (render true (names ++ [name])) = render true names := by
  obtain ⟨before, last⟩ := List.forall_mem_append.1 proper
  have whole := (last name List.mem_cons_self).whole
  obtain ⟨text, same, made, rooted, -⟩ := render_concat before name
  have cut : ((text ++ separator :: name).reverse.dropWhile (· != separator)).reverse =
      text ++ [separator] := by
    rw [List.reverse_append, List.reverse_cons, List.append_assoc,
      List.dropWhile_append_of_pos fun b member => ?_]
    · simp
    · rw [bne_iff_ne]
      rintro rfl
      exact whole (List.mem_reverse.1 member)
  rw [parent, same, cut, clean_of_components rooted before]
  rw [components_append, made, show components [] = [] by decide, List.append_nil]

theorem length_parent_lt (proper : ∀ c ∈ names ++ [name], IsName c) :
    (parent (render true (names ++ [name]))).length < (render true (names ++ [name])).length := by
  obtain ⟨before, last⟩ := List.forall_mem_append.1 proper
  have nonempty := List.length_pos_iff.2 (last name List.mem_cons_self).nonempty
  obtain ⟨text, same, -, -, longer⟩ := render_concat before name
  rw [parent_concat proper, same, List.length_append, List.length_cons]
  omega

inductive Climbs : Bytes → List Bytes → Prop
  | top {path : Bytes} (stays : parent path = path) : Climbs path [path]
  | up {path : Bytes} {above : List Bytes} (goes : parent path ≠ path)
      (rest : Climbs (parent path) above) : Climbs path (path :: above)

def ancestors (names : List Bytes) : List Bytes :=
  (List.range (names.length + 1)).reverse.map fun n => render true (names.take n)

theorem ancestors_concat (names : List Bytes) (name : Bytes) :
    ancestors (names ++ [name]) = render true (names ++ [name]) :: ancestors names := by
  unfold ancestors
  rw [List.length_append, List.length_singleton, List.range_succ, List.reverse_append,
    List.map_append, List.reverse_singleton, List.map_singleton, List.take_of_length_le (by simp)]
  refine congrArg _ (List.map_congr_left fun n member => ?_)
  have within := List.mem_range.1 (List.mem_reverse.1 member)
  rw [List.take_append_of_le_length (by omega)]

theorem climbs_ancestors (names : List Bytes) (proper : ∀ c ∈ names, IsName c) :
    Climbs (render true names) (ancestors names) := by
  -- from the end, where the parent takes the names away
  induction hn : names.length generalizing names with
  | zero =>
    rw [List.eq_nil_of_length_eq_zero hn]
    exact .top parent_root
  | succ n ih =>
    rcases List.eq_nil_or_concat names with rfl | ⟨before, name, same⟩
    · cases hn
    · rw [List.concat_eq_append] at same
      subst same
      have shorter := length_parent_lt proper
      rw [ancestors_concat]
      refine .up (fun same => ?_) ?_
      · rw [same] at shorter
        exact Nat.lt_irrefl _ shorter
      · rw [parent_concat proper]
        exact ih before (List.forall_mem_append.1 proper).1 (by simpa using hn)

theorem stages_render (proper : ∀ c ∈ names, IsName c) :
    (stages (render true names)).reverse ++ [render true []] = ancestors names := by
  unfold stages ancestors
  rw [isAbsolute_render, components_render proper, List.range_succ_eq_map]
  simp [Function.comp_def]

end Path

end ScriptHost
