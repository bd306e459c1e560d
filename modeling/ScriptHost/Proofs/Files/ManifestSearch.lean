import ScriptHost.Manifest
import ScriptHost.Proofs.Files.Paths

set_option autoImplicit false

namespace ScriptHost

namespace FileTree

open Path

structure Reaches (t : FileTree) (names : List Bytes) (node : Node) : Prop where
  textual : 0 ∉ render true names
  fits : (render true names).length < longestPath
  short : ∀ c ∈ names, c.length ≤ longestName
  directories : ∀ n < names.length, t.node? (render true (names.take n)) = some .directory
  stands : t.node? (render true names) = some node

variable {t : FileTree} {node : Node}

theorem forall_stages {P : List Bytes → Prop} (before rest : List Bytes) (c : Bytes) :
    (∀ n < (c :: rest).length, P (before ++ (c :: rest).take n)) ↔
      P before ∧ ∀ n < rest.length, P (before ++ [c] ++ rest.take n) := by
  constructor
  · intro all
    refine ⟨?_, fun n within => ?_⟩
    · have start := all 0 (Nat.succ_pos _)
      rwa [List.take_zero, List.append_nil] at start
    · have later := all (n + 1) (Nat.succ_lt_succ within)
      rwa [List.take_succ_cons, List.append_cons] at later
  · rintro ⟨start, later⟩ n within
    cases n with
    | zero => rwa [List.take_zero, List.append_nil]
    | succ n =>
      rw [List.take_succ_cons, List.append_cons]
      exact later n (Nat.lt_of_succ_lt_succ within)

theorem walk_names {before rest : List Bytes} (proper : ∀ c ∈ before ++ rest, IsName c) :
    t.walk (render true before) rest = .ok node ↔
      (∀ c ∈ rest, c.length ≤ longestName) ∧
      (∀ n < rest.length, t.node? (render true (before ++ rest.take n)) = some .directory) ∧
      t.node? (render true (before ++ rest)) = some node := by
  induction rest generalizing before with
  | nil =>
    simp only [List.append_nil]
    unfold walk
    cases t.node? (render true before) <;> simp
  | cons c rest ih =>
    have proper' : ∀ c' ∈ before ++ [c] ++ rest, IsName c' := by rwa [← List.append_cons]
    have joined := join_name (List.forall_mem_append.1 proper').1
    rw [List.forall_mem_cons, List.append_cons,
      forall_stages (P := fun names => t.node? (render true names) = some .directory)]
    unfold walk
    split
    next found =>
      rw [joined]
      by_cases long : longestName < c.length
      · rw [if_pos long]
        exact ⟨nofun, fun holds => absurd holds.1.1 (Nat.not_le.2 long)⟩
      · rw [if_neg long, ih proper']
        exact ⟨fun ⟨short, directories, stands⟩ =>
          ⟨⟨Nat.not_lt.1 long, short⟩, ⟨found, directories⟩, stands⟩,
          fun ⟨⟨_, short⟩, ⟨_, directories⟩, stands⟩ => ⟨short, directories, stands⟩⟩
    next _ other found =>
      refine ⟨nofun, fun ⟨_, ⟨start, _⟩, _⟩ => ?_⟩
      rw [found] at start
      exact absurd (Option.some.inj start) other
    next found =>
      refine ⟨nofun, fun ⟨_, ⟨start, _⟩, _⟩ => ?_⟩
      rw [found] at start
      cases start

theorem flaw?_eq_none (path : Bytes) (nonempty : path ≠ []) :
    flaw? path = none ↔ 0 ∉ path ∧ path.length < longestPath := by
  have full : path.isEmpty = false := List.isEmpty_eq_false_iff.2 nonempty
  unfold flaw?
  rw [full, if_neg Bool.false_ne_true]
  split
  next null => exact ⟨nofun, fun fit => absurd (List.contains_iff_mem.1 null) fit.1⟩
  next textual =>
    split
    next long => exact ⟨nofun, fun fit => absurd fit.2 (Nat.not_lt.2 long)⟩
    next short =>
      exact ⟨fun _ => ⟨fun null => textual (List.contains_iff_mem.2 null), Nat.not_le.1 short⟩,
        fun _ => rfl⟩

theorem stat_render {names : List Bytes} (proper : ∀ c ∈ names, IsName c) (below : names ≠ []) :
    t.stat (render true names) = .ok node ↔ t.Reaches names node := by
  -- the path is split at its separators; what is left of the first one leads from the root to
  -- itself
  have opens : t.walk [separator] (Bytes.split separator (render true names)) =
      t.walk (render true []) names := by
    have whole := Bytes.split_join below fun c member => (proper c member).whole
    rw [render, if_pos rfl, Bytes.split_cons_separator, whole, walk,
      show t.node? [separator] = some .directory from if_pos rfl]
    rfl
  have walked := @walk_names t node [] names proper
  simp only [List.nil_append] at walked
  have legal := flaw?_eq_none (render true names) (List.cons_ne_nil _ _)
  unfold stat
  cases flawed : flaw? (render true names) with
  | some e =>
    have unfit := mt legal.2 (by rw [flawed]; exact Option.some_ne_none e)
    refine ⟨fun found => ?_, fun reaches => absurd ⟨reaches.textual, reaches.fits⟩ unfit⟩
    cases found
  | none =>
    obtain ⟨textual, fits⟩ := legal.1 flawed
    dsimp only
    rw [isAbsolute_render, if_pos rfl, opens, walked]
    refine ⟨fun found => ?_, fun reaches => ⟨reaches.short, reaches.directories, reaches.stands⟩⟩
    obtain ⟨short, directories, stands⟩ := found
    exact ⟨textual, fits, short, directories, stands⟩

end FileTree

namespace Manifest

open Path

theorem isName_fileName : IsName fileName := by
  constructor <;> decide

def StandsIn (files : FileTree) (names : List Bytes) : Prop :=
  ∃ node, files.Reaches (names ++ [fileName]) node

def holds (files : FileTree) (d : Bytes) : Bool := (files.stat (Path.join [d, fileName])).isOk

theorem holds_render (files : FileTree) {names : List Bytes} (proper : ∀ c ∈ names, IsName c) :
    holds files (render true names) ↔ StandsIn files names := by
  have named : ∀ c ∈ names ++ [fileName], IsName c :=
    List.forall_mem_append.2 ⟨proper, List.forall_mem_singleton.2 isName_fileName⟩
  have found (node : Node) := @FileTree.stat_render files node _ named (by simp)
  rw [holds, join_name named, StandsIn]
  cases result : files.stat (render true (names ++ [fileName])) with
  | error e =>
    refine ⟨nofun, fun ⟨node, reaches⟩ => ?_⟩
    rw [(found node).2 reaches] at result
    cases result
  | ok node => exact ⟨fun _ => ⟨node, (found node).1 result⟩, fun _ => rfl⟩

theorem find_of_some {files : FileTree} {directory d : Bytes}
    (first : (searched files directory).find? (holds files) = some d) :
    find files directory = (load files d).map some := by
  unfold find
  dsimp only
  rw [show (searched files directory).find? (fun d => (files.stat (Path.join [d, fileName])).isOk) =
    some d from first]

theorem find_eq_none {files : FileTree} {directory : Bytes} :
    find files directory = .ok none ↔ ∀ d ∈ searched files directory, ¬ holds files d := by
  rw [← List.find?_eq_none]
  cases first : (searched files directory).find? (holds files) with
  | some d =>
    rw [find_of_some first]
    refine ⟨fun none => ?_, nofun⟩
    cases loaded : load files d <;> rw [loaded] at none <;> cases none
  | none =>
    refine ⟨fun _ => rfl, fun _ => ?_⟩
    unfold find
    dsimp only
    rw [show (searched files directory).find? (fun d => (files.stat (Path.join [d, fileName])).isOk) =
      none from first]

theorem find?_range_reverse {p : Nat → Bool} {n k : Nat} (within : n < k) (fits : p n)
    (last : ∀ m < k, n < m → ¬ p m) : (List.range k).reverse.find? p = some n := by
  induction k with
  | zero => exact absurd within (Nat.not_lt_zero n)
  | succ k ih =>
    rw [List.range_succ, List.reverse_append, List.reverse_singleton, List.singleton_append]
    by_cases here : n = k
    · rw [← here, List.find?_cons_of_pos fits]
    · have below : n < k := by omega
      rw [List.find?_cons_of_neg (last k (Nat.lt_succ_self k) below)]
      exact ih below fun m bound => last m (Nat.lt_succ_of_lt bound)

theorem searched_eq (files : FileTree) {directory : Bytes} {names : List Bytes}
    (proper : ∀ c ∈ names, IsName c) (start : files.absolute directory = render true names) :
    searched files directory = ancestors names := by
  rw [searched, start]
  exact stages_render proper

/-- The search goes from the absolute directory to its parents, all of them up to the root. It loads
the manifest of the first directory where one stands, which is that with most names, and finds none
exactly if there is none in any of them. -/
theorem find_nearest (files : FileTree) (directory : Bytes)
    (rooted : isAbsolute directory ∨ isAbsolute files.workingDirectory) :
    ∃ names, (∀ c ∈ names, IsName c) ∧ files.absolute directory = render true names ∧
      Climbs (files.absolute directory) (searched files directory) ∧
      searched files directory = ancestors names ∧
      (∀ n ≤ names.length, StandsIn files (names.take n) →
        (∀ m ≤ names.length, n < m → ¬ StandsIn files (names.take m)) →
        find files directory = (load files (render true (names.take n))).map some) ∧
      (find files directory = .ok none ↔ ∀ n ≤ names.length, ¬ StandsIn files (names.take n)) := by
  obtain ⟨names, proper, start⟩ := absolute_rooted rooted
  have start : files.absolute directory = render true names := start
  have all := searched_eq files proper start
  have stands (n : Nat) : holds files (render true (names.take n)) ↔ StandsIn files (names.take n) :=
    holds_render files fun c member => proper c (List.mem_of_mem_take member)
  refine ⟨names, proper, start, ?_, all, fun n within fits last => find_of_some ?_, ?_⟩
  · rw [all, start]
    exact climbs_ancestors names proper
  · have first := find?_range_reverse (p := fun n => holds files (render true (names.take n)))
      (Nat.lt_succ_of_le within) ((stands n).2 fits) fun m bound above =>
        mt (stands m).1 (last m (Nat.le_of_lt_succ bound) above)
    rw [all, ancestors, List.find?_map]
    exact congrArg (Option.map _) first
  · rw [find_eq_none, all, ancestors, List.forall_mem_map]
    exact ⟨fun none n within => mt (stands n).2 (none n (by simpa using Nat.lt_succ_of_le within)),
      fun none n member => mt (stands n).1 (none n (Nat.le_of_lt_succ (by simpa using member)))⟩

def nestedTree : FileTree :=
  (FileTree.make "/a/b").writeFile "/a/phpenv.toml" "[project]\nname = 'x'"

def nestedNames : List Bytes := ["a", "b"]

theorem find_nearest_above :
    (isAbsolute "c//../." ∨ isAbsolute nestedTree.workingDirectory) ∧
    find nestedTree "c//../." = (load nestedTree "/a").map some := by
  have rooted : isAbsolute "c//../." ∨ isAbsolute nestedTree.workingDirectory :=
    .inr (by decide +kernel)
  refine ⟨rooted, ?_⟩
  obtain ⟨names, proper, start, -, -, nearest, -⟩ := find_nearest nestedTree "c//../." rooted
  have same : names = nestedNames := by
    rw [← components_render proper, ← start]
    decide +kernel
  subst same
  have holdsAt (n : Nat) : holds nestedTree (render true (nestedNames.take n)) ↔
      StandsIn nestedTree (nestedNames.take n) :=
    holds_render nestedTree fun c member => proper c (List.mem_of_mem_take member)
  refine nearest 1 (by decide) ((holdsAt 1).1 (by decide +kernel)) fun m bound above => ?_
  obtain rfl : m = 2 := by
    have bound : m ≤ 2 := bound
    omega
  exact mt (holdsAt 2).2 (by decide +kernel)

end Manifest

end ScriptHost
