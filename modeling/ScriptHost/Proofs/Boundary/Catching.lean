import ScriptHost.Exceptions
import ScriptHost.Proofs.Registry.Registration

set_option autoImplicit false

namespace ScriptHost

open Run

variable {σ τ : Type}

inductive Failure.Carries (x : Exception) : Failure → Prop
  | itself : Carries x (.exception x)
  | within (text : Bytes) {cause : Failure} (inner : Carries x cause) :
      Carries x (.within text (some cause))

theorem Failure.Carries.found {f : Failure} {x : Exception} (carries : f.Carries x) :
    f.chain.findSome? Failure.exception? = some x := by
  induction carries with
  | itself =>
    -- an exception comes first in its chain, whatever is behind it
    obtain ⟨thrown, message, trace, frames, payload, _ | previous⟩ := x <;> rfl
  | within text inner ih => exact ih

namespace Classes

variable {classes : Classes} {d k : ClassId}

theorem hasAncestorNamed_of_isSubclassOf (derives : classes.isSubclassOf d k) :
    classes.hasAncestorNamed d (classes.get k).lowerName := by
  unfold hasAncestorNamed
  rw [List.any_eq_true]
  exact ⟨k, List.contains_iff_mem.1 derives, beq_self_eq_true _⟩

theorem not_hasAncestorNamed (plain : ∀ a ∈ classes.lineage d, (classes.get a).name.head? ≠ some 0x5c)
    {lower : Bytes} (separated : lower.head? = some 0x5c) :
    classes.hasAncestorNamed d lower = false := by
  unfold hasAncestorNamed
  rw [List.any_eq_false]
  intro a member same
  rw [beq_iff_eq] at same
  refine plain a member ((Bytes.head?_lower _).1 ?_)
  rw [← Class.lowerName, same, separated]

end Classes

namespace Exceptions

theorem catchMatches_carried {classes : Classes} {f : Failure} {x : Exception} {d : ClassId}
    {label : Bytes} (carries : f.Carries x) (thrown : x.thrown = some (d, label)) (name : Bytes) :
    catchMatches classes f name = classes.hasAncestorNamed d name.lower := by
  unfold catchMatches
  rw [carries.found]
  dsimp only
  rw [thrown]

end Exceptions

theorem ClassRegistry.find_named {h : Host τ} {c : ContextId} {name : Bytes} {k : ClassId}
    {w w' : World τ} (sound : w.Sound) (found : find h c name w = (.ok (some k), w')) :
    w.classes.has k ∧ (w.classes.get k).lowerName = (withoutSeparator name).lower := by
  unfold find at found
  obtain ⟨k', loaded, same⟩ | ⟨_, same⟩ | ⟨k', _, shared, _, same⟩ :=
    findLower_cases h c w (withoutSeparator name).lower
  · cases same.symm.trans found
    exact (sound.contexts c).declarations.classes _ k loaded
  · cases same.symm.trans found
  · obtain ⟨_, v, _, last⟩ := of_bind_ok (same.symm.trans found)
    cases last
    exact (sound.scopes _).classes _ k shared

namespace Operation

variable {h : Host (Ledger σ)} (scripted : h.IsScripted) {c : ContextId} {name : Bytes} {k : ClassId}
  {w u : Recorded σ} (regular : w.IsRegular)
include scripted regular

theorem Meets.named (meets : (act c (.findClass name)).Meets h (.ok (some k)) w u) :
    (u.classes.get k).lowerName = (withoutSeparator name).lower := by
  obtain ⟨v, ended, later, -⟩ := meets.later scripted regular
  obtain ⟨-, -, ready, found⟩ := of_request_act ended regular
  -- it has the name in the world in which it is looked up, and a class keeps its name
  obtain ⟨known, named⟩ := ClassRegistry.find_named ready.sound found
  have kept := (later.classes k known).2.1
  rw [Class.lowerName, kept]
  exact named

theorem Meets.catches (meets : (act c (.findClass name)).Meets h (.ok (some k)) w u) {f : Failure}
    {x : Exception} {d : ClassId} {label : Bytes} (carries : f.Carries x)
    (thrown : x.thrown = some (d, label)) (derives : u.classes.isSubclassOf d k) :
    Exceptions.catchMatches u.classes f (withoutSeparator name) := by
  rw [Exceptions.catchMatches_carried carries thrown, ← meets.named scripted regular]
  exact Classes.hasAncestorNamed_of_isSubclassOf derives

end Operation

/-- Catching agrees with the lookup of classes. When a class has been found in a context, an
exception of that class or of one that derives from it is caught by the name that the class was
found by, however it is spelled and however the exception is wrapped, in all that happens from then
on. But a leading separator, which the lookup leaves out, catches nothing unless a class has been
declared with it. All worlds in all runs are regular. -/
theorem Script.found_is_caught (s : Script σ) (depth : Nat) :
    (∀ (ρ : Type) (code : Code σ ρ) (files : FileTree) (own : σ),
      (code.run (s.host depth) (.start files own)).2.IsRegular ∧
      ∀ m ∈ s.journal depth code files own, m.world.IsRegular) ∧
    ∀ (w u : Recorded σ) (c : ContextId) (name : Bytes) (k : ClassId), w.IsRegular →
      (Operation.act c (.findClass name)).Meets (s.host depth) (.ok (some k)) w u →
      ∀ (f : Failure) (x : Exception) (d : ClassId) (label : Bytes), f.Carries x →
        x.thrown = some (d, label) → u.classes.isSubclassOf d k →
        Exceptions.catchMatches u.classes f (withoutSeparator name) ∧
        (name.head? ≠ some 0x5c → Exceptions.catchMatches u.classes f name) ∧
        (name.head? = some 0x5c →
          (∀ a ∈ u.classes.lineage d, (u.classes.get a).name.head? ≠ some 0x5c) →
          Exceptions.catchMatches u.classes f name = false) := by
  refine ⟨fun ρ code files own => ⟨?_, fun m => Script.regular_of_journal⟩, ?_⟩
  · exact ((s.course depth code files own).regular (World.start_isRegular files own)).1
  intro w u c name k regular meets f x d label carries thrown derives
  have caught : Exceptions.catchMatches u.classes f (withoutSeparator name) :=
    meets.catches (s.host_scripted depth) regular carries thrown derives
  refine ⟨caught, fun plain => ?_, fun separated plain => ?_⟩
  · rwa [withoutSeparator_of_plain plain] at caught
  · rw [Exceptions.catchMatches_carried carries thrown]
    exact Classes.not_hasAncestorNamed plain ((Bytes.head?_lower _).2 separated)

def related : Recorded Unit :=
  ((Code.each () (oneContext ++ [newPlainClass "Foo", .act ⟨0⟩ (.registerClass ⟨0⟩),
      .newClass (Class.make "Bar" (some ⟨0⟩))]) : Code Unit Unit).run (stranded.host 1)
    (.start (FileTree.make "/") ())).2

def wrapped : Failure :=
  .within "task" (some (.exception ⟨some (⟨1⟩, "Bar"), "x", {}, [], none, none⟩))

theorem found_is_caught_wrapped : ∃ u,
    (Operation.act ⟨0⟩ (.findClass "fOO")).Meets (stranded.host 1) (.ok (some ⟨0⟩)) related u ∧
    u.classes.isSubclassOf ⟨1⟩ ⟨0⟩ ∧ Exceptions.catchMatches u.classes wrapped "fOO" := by
  obtain ⟨runs, caught⟩ := stranded.found_is_caught 1
  have meets := Operation.meets_of_ok (h := stranded.host 1) (w := related)
    (o := .act ⟨0⟩ (.findClass "fOO")) (a := some ⟨0⟩) (by decide +kernel)
  have catches := caught _ _ _ _ _ (runs Unit _ _ _).1 meets wrapped _ ⟨1⟩ "Bar"
    (.within _ .itself) rfl (by decide +kernel)
  exact ⟨_, meets, by decide +kernel, catches.2.1 (by decide)⟩

theorem found_not_caught : ∃ u,
    (Operation.act ⟨0⟩ (.findClass "\\foo")).Meets (stranded.host 1) (.ok (some ⟨0⟩)) related u ∧
    (u.context ⟨0⟩).classes.get? "foo" = some ⟨0⟩ ∧ u.classes.isSubclassOf ⟨0⟩ ⟨0⟩ ∧
    Exceptions.catchMatches u.classes
      (.exception ⟨some (⟨0⟩, "Foo"), "x", {}, [], none, none⟩) "\\foo" = false := by
  have meets := Operation.meets_of_ok (h := stranded.host 1) (w := related)
    (o := .act ⟨0⟩ (.findClass "\\foo")) (a := some ⟨0⟩) (by decide +kernel)
  exact ⟨_, meets, by decide +kernel, by decide +kernel, by decide +kernel⟩

end ScriptHost
