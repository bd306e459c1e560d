import ScriptHost.Exceptions
import ScriptHost.Proofs.Boundary.Classification
import ScriptHost.Proofs.Settings.Directories

set_option autoImplicit false

namespace ScriptHost

open Run

variable {σ α : Type}

inductive MaskStep where
  | silence
  | restore
  | setMask (mask : Severity)

namespace MaskStep

def apply (d : Diagnostics) : MaskStep → Diagnostics
  | silence => d.pushSilent
  | restore => d.popSilent
  | setMask mask => { d with mask }

inductive WellNested : List MaskStep → Prop
  | nil : WellNested []
  | setMask (mask : Severity) {rest : List MaskStep} (after : WellNested rest) :
      WellNested (setMask mask :: rest)
  | silenced {inner rest : List MaskStep} (inside : WellNested inner) (after : WellNested rest) :
      WellNested (silence :: inner ++ restore :: rest)

inductive Opens : Nat → List MaskStep → Prop
  | wellNested {steps : List MaskStep} (closed : WellNested steps) : Opens 0 steps
  | silence {n : Nat} {before inner : List MaskStep} (closed : WellNested before)
      (opens : Opens n inner) : Opens (n + 1) (before ++ silence :: inner)

end MaskStep

namespace Diagnostics

open MaskStep

variable {d : Diagnostics} {steps : List MaskStep}

def follow (d : Diagnostics) (steps : List MaskStep) : Diagnostics := steps.foldl MaskStep.apply d

theorem follow_cons (d : Diagnostics) (step : MaskStep) (rest : List MaskStep) :
    d.follow (step :: rest) = (step.apply d).follow rest := rfl

theorem follow_append (d : Diagnostics) (first rest : List MaskStep) :
    d.follow (first ++ rest) = (d.follow first).follow rest := List.foldl_append

theorem popSilent_pushSilent (d : Diagnostics) (mask : Severity) :
    { d.pushSilent with mask }.popSilent = d := rfl

theorem follow_wellNested (nested : WellNested steps) (d : Diagnostics) :
    d.follow steps = { d with mask := (d.follow steps).mask } := by
  induction nested generalizing d with
  | nil => rfl
  | setMask mask _ ih => exact ih { d with mask }
  | @silenced inner rest _ _ inside after =>
    have whole : d.follow (silence :: inner ++ restore :: rest) = d.follow rest := by
      rw [follow_append, follow_cons, follow_cons, MaskStep.apply, MaskStep.apply, inside,
        popSilent_pushSilent]
    rw [whole]
    exact after d

theorem follow_silenced (nested : WellNested steps) (d : Diagnostics) :
    d.follow (silence :: steps ++ [restore]) = d := by
  rw [follow_append, follow_cons, follow_cons, MaskStep.apply, MaskStep.apply,
    follow_wellNested nested, popSilent_pushSilent]
  rfl

def outermost (d : Diagnostics) : Severity := d.silenced.getLast?.getD d.mask

theorem clearSilent_eq (d : Diagnostics) :
    d.clearSilent = { d with mask := d.outermost, silenced := [] } := by
  obtain ⟨mask, silenced⟩ := d
  cases silenced with
  | nil => rfl
  | cons first rest =>
    unfold clearSilent outermost
    rw [List.getLast?_cons]
    rfl

theorem clearSilent_pushSilent (d : Diagnostics) : d.pushSilent.clearSilent = d.clearSilent := by
  rw [clearSilent_eq, clearSilent_eq]
  simp only [outermost, pushSilent, List.getLast?_cons, Option.getD_some]

theorem clearSilent_popSilent (d : Diagnostics) : d.popSilent.clearSilent = d.clearSilent := by
  obtain ⟨mask, silenced⟩ := d
  cases silenced with
  | nil => rfl
  | cons first rest =>
    rw [clearSilent_eq, clearSilent_eq]
    simp only [outermost, popSilent, List.getLast?_cons, Option.getD_some]

theorem clearSilent_setMask (mask : Severity) (silent : d.silenced ≠ []) :
    { d with mask }.clearSilent = d.clearSilent := by
  rw [clearSilent_eq, clearSilent_eq, outermost, outermost, List.getLast?_eq_some_getLast silent]
  rfl

theorem clearSilent_follow {n : Nat} (opens : Opens n steps) (silent : d.silenced ≠ []) :
    (d.follow steps).clearSilent = d.clearSilent := by
  induction opens generalizing d with
  | wellNested nested =>
    rw [follow_wellNested nested]
    exact clearSilent_setMask _ silent
  | @silence n before inner nested _ ih =>
    have first : (d.follow before).clearSilent = d.clearSilent := by
      rw [follow_wellNested nested]
      exact clearSilent_setMask _ silent
    have deeper : (d.follow before).pushSilent.silenced ≠ [] := List.cons_ne_nil _ _
    rw [follow_append, follow_cons, MaskStep.apply, ih deeper, clearSilent_pushSilent, first]

theorem clearSilent_opened {n : Nat} (opens : Opens n steps) (d : Diagnostics) :
    (d.follow (silence :: steps)).clearSilent = d.clearSilent := by
  have silent : d.pushSilent.silenced ≠ [] := List.cons_ne_nil _ _
  rw [follow_cons, MaskStep.apply, clearSilent_follow opens silent, clearSilent_pushSilent]

theorem clearSilent_of_outside (outside : d.silentDepth = 0) : d.clearSilent = d := by
  have unsaved : d.silenced = [] := List.eq_nil_of_length_eq_zero outside
  rw [clearSilent, unsaved]
  rfl

theorem popSilent_of_outside (outside : d.silentDepth = 0) : d.popSilent = d := by
  have unsaved : d.silenced = [] := List.eq_nil_of_length_eq_zero outside
  rw [popSilent, unsaved]

theorem silentDepth_clearSilent (d : Diagnostics) : d.clearSilent.silentDepth = 0 := by
  rw [clearSilent_eq]
  rfl

theorem silentDepth_follow {n : Nat} (opens : Opens n steps) (d : Diagnostics) :
    (d.follow steps).silentDepth = d.silentDepth + n := by
  induction opens generalizing d with
  | wellNested nested =>
    rw [follow_wellNested nested]
    rfl
  | @silence n before inner nested _ ih =>
    have first : (d.follow before).pushSilent.silentDepth = d.silentDepth + 1 := by
      rw [follow_wellNested nested]
      rfl
    rw [follow_append, follow_cons, MaskStep.apply, ih, first]
    omega

theorem silentDepth_popSilent (d : Diagnostics) :
    d.popSilent.silentDepth = d.silentDepth - 1 := by
  obtain ⟨mask, silenced⟩ := d
  cases silenced <;> rfl

theorem silentDepth_follow_restore (n : Nat) (d : Diagnostics) :
    (d.follow (.replicate n restore)).silentDepth = d.silentDepth - n := by
  induction n generalizing d with
  | zero => rfl
  | succ n ih =>
    rw [List.replicate_succ, follow_cons, MaskStep.apply, ih, silentDepth_popSilent]
    omega

theorem follow_restore {n : Nat} (enough : d.silentDepth ≤ n) :
    d.follow (.replicate n restore) = d.clearSilent := by
  induction n generalizing d with
  | zero => exact (clearSilent_of_outside (Nat.le_zero.1 enough)).symm
  | succ n ih =>
    have fewer : d.popSilent.silentDepth ≤ n := by
      rw [silentDepth_popSilent]
      omega
    rw [List.replicate_succ, follow_cons, MaskStep.apply, ih fewer, clearSilent_popSilent]

end Diagnostics

namespace World

variable {w : World σ} {c : ContextId}

def diagnostics (w : World σ) (c : ContextId) : Diagnostics := (w.context c).diagnostics

def updateDiagnostics (w : World σ) (c : ContextId) (f : Diagnostics → Diagnostics) : World σ :=
  w.updateContext c fun x => { x with diagnostics := f x.diagnostics }

theorem updateDiagnostics_congr {f g : Diagnostics → Diagnostics}
    (same : f (w.diagnostics c) = g (w.diagnostics c)) :
    w.updateDiagnostics c f = w.updateDiagnostics c g :=
  w.updateContext_congr c (congrArg ({ w.context c with diagnostics := · }) same)

theorem updateDiagnostics_self {f : Diagnostics → Diagnostics}
    (same : f (w.diagnostics c) = w.diagnostics c) : w.updateDiagnostics c f = w :=
  congrArg (fun contexts => { w with contexts }) (w.contexts.modify_eq_self c fun _ =>
    congrArg ({ w.context c with diagnostics := · }) same)

theorem updateDiagnostics_updateDiagnostics (f g : Diagnostics → Diagnostics) :
    (w.updateDiagnostics c f).updateDiagnostics c g = w.updateDiagnostics c (g ∘ f) :=
  w.updateContext_updateContext c _ _

theorem diagnostics_updateDiagnostics (known : w.contexts.has c) (f : Diagnostics → Diagnostics) :
    (w.updateDiagnostics c f).diagnostics c = f (w.diagnostics c) := by
  rw [diagnostics, updateDiagnostics, context_updateContext, if_pos ⟨rfl, known⟩]
  rfl

end World

def Run.Throws (c : ContextId) (m : Run σ Unit) (w : World σ) (e : Exception) (u : World σ) : Prop :=
  m w = Exceptions.throwException c e u

namespace Exceptions

variable {h : Host σ} {c : ContextId} {trace : Trace} {w u : World σ}

theorem throwException_throws (e : Exception) : (throwException c e).Throws c w e w := rfl

theorem throwNamed_throws {className template : Bytes} {args : List Value} {k : ClassId}
    (found : ClassRegistry.require h c trace className w = (.ok (some k), u)) :
    (throwNamed h c trace className template args).Throws c w {
      thrown := some (k, (u.classes.get k).name)
      message := Template.message u.classes u.objects template args
      trace
      frames := (u.context c).snapshot
      payload := none
      previous := none } u :=
  bind_ok found

theorem throwValue_throws {o : ObjectId} {k : ClassId}
    (ofClass : (w.objects.get o).ofClass = some k) (throwable : isThrowable w.classes k) :
    ∃ e, e.thrown = some (k, (w.classes.get k).name) ∧ e.payload = some o ∧
      (throwValue h c trace (.object o)).Throws c w e w := by
  have fits : (w.objects.get o).ofClass.filter (isThrowable w.classes) = some k := by
    rw [ofClass, Option.filter_some, if_pos throwable]
  unfold Run.Throws throwValue
  dsimp only
  rw [bind_ok (get_apply w)]
  rewrite [fits]
  dsimp only
  cases (w.objects.get o).binding with
  | plain => exact ⟨_, rfl, rfl, bind_ok (World.textOf_apply w _)⟩
  | closure b => exact ⟨_, rfl, rfl, rfl⟩

end Exceptions

namespace Silencing

open MaskStep Boundary

variable {c : ContextId} {w v : World σ}

def perform (c : ContextId) : List MaskStep → Run σ Unit
  | [] => return
  | step :: rest => do
    Run.modifyDiagnostics c (MaskStep.apply · step)
    perform c rest

theorem perform_apply (c : ContextId) (steps : List MaskStep) (w : World σ) :
    perform c steps w = (.ok (), w.updateDiagnostics c (·.follow steps)) := by
  induction steps generalizing w with
  | nil => exact congrArg _ (World.updateDiagnostics_self rfl).symm
  | cons step rest ih =>
    have first : Run.modifyDiagnostics c (MaskStep.apply · step) w =
      (.ok (), w.updateDiagnostics c (MaskStep.apply · step)) := rfl
    rw [perform, bind_ok first, ih, World.updateDiagnostics_updateDiagnostics]
    rfl

def leaving (c : ContextId) : Nat → Run σ α → Run σ α
  | 0, m => m
  | n + 1, m => Run.ensuring (leaving c n m) (Run.modifyDiagnostics c Diagnostics.popSilent)

theorem leaving_of_outside {m : Run σ α} {result : Except Signal α} (ended : m w = (result, v))
    (outside : (v.diagnostics c).silentDepth = 0) (n : Nat) : leaving c n m w = (result, v) := by
  induction n with
  | zero => exact ended
  | succ n ih =>
    have still : Run.modifyDiagnostics c Diagnostics.popSilent v = (.ok (), v) :=
      congrArg _ (World.updateDiagnostics_self (Diagnostics.popSilent_of_outside outside))
    rw [leaving, Run.ensuring, ih]
    dsimp only
    rw [still]

structure UnwindsTo (c : ContextId) (code : Run σ Unit) (w : World σ) (e : Exception)
    (v : World σ) : Prop where
  unwinds : code w = (.error (.failure (.exception e)), v)
  executed : (Failure.exception e).isRecoverable → ∀ h, execute h c code w =
    (do return if ← catchUncaught h c (.exception e) then none else some (Failure.exception e)) v
  handled : (Failure.exception e).ReachesHandler → ∀ h k rounds, v.handler c = some k →
    h.patience = rounds + 1 → catchUncaught h c (.exception e) v =
      (guard (h.handleException k c (.exception e)) >>= review h c rounds) v

theorem UnwindsTo.of_unwinds {code : Run σ Unit} {e : Exception}
    (unwinds : code w = (.error (.failure (.exception e)), v)) : UnwindsTo c code w e v where
  unwinds
  executed recovers h := bind_ok (guard_failure unwinds recovers)
  handled reaches h k rounds installed patience := by
    rw [catchUncaught, patience]
    exact classify_reaches reaches installed rounds

theorem throws_unwindsTo {code m : Run σ Unit} {opened u : World σ} {e : Exception}
    (reached : code w = (.ok (), opened)) (throws : m.Throws c opened e u)
    (there : u.contexts.has c) (left : Nat) :
    UnwindsTo c (leaving c left (code >>= fun _ => m)) w e
      (u.updateDiagnostics c Diagnostics.clearSilent) := by
  have thrown : (code >>= fun _ => m) w = (.error (.failure (.exception e)),
      u.updateDiagnostics c Diagnostics.clearSilent) := (bind_ok reached).trans throws
  refine .of_unwinds (leaving_of_outside thrown ?_ left)
  rw [World.diagnostics_updateDiagnostics there, Diagnostics.silentDepth_clearSilent]

/-- A silencing that is left restores the context as it was when it was entered. Leaving all
silencings at once does the same as leaving them one by one. An exception that is thrown inside of
silencings, however deep, unwinds with the mask that was in force before the outermost of them;
handlers start with it, and it stays however often a silencing is left from then on. -/
theorem restores_mask (c : ContextId) (w : World σ) (known : w.contexts.has c) :
    (∀ inner, WellNested inner →
      perform c (silence :: inner ++ [restore]) w = (.ok (), w)) ∧
    (Run.modifyDiagnostics c Diagnostics.clearSilent w =
        perform c (.replicate (w.diagnostics c).silentDepth restore) w ∧
      ∀ n v, perform c (.replicate n restore) w = (.ok (), v) →
        (v.diagnostics c).silentDepth = (w.diagnostics c).silentDepth - n) ∧
    ∀ n inner, Opens n inner → ∀ opened, perform c (silence :: inner) w = (.ok (), opened) →
      (opened.diagnostics c).silentDepth = (w.diagnostics c).silentDepth + (n + 1) ∧
      ∀ m e u, m.Throws c opened e u → u.contexts.has c →
        u.diagnostics c = opened.diagnostics c →
        ∃ v, v = u.updateDiagnostics c Diagnostics.clearSilent ∧
          v.diagnostics c =
            { w.diagnostics c with mask := (w.diagnostics c).outermost, silenced := [] } ∧
          ((w.diagnostics c).silentDepth = 0 → v.diagnostics c = w.diagnostics c) ∧
          ∀ left, perform c (.replicate left restore) v = (.ok (), v) ∧
            UnwindsTo c (leaving c left (perform c (silence :: inner) >>= fun _ => m)) w e v := by
  refine ⟨fun inner nested => ?_, ⟨?_, fun n v left => ?_⟩, fun n inner opens opened entered =>
    ⟨?_, fun m e u throws there same => ?_⟩⟩
  · rw [perform_apply, World.updateDiagnostics_self (Diagnostics.follow_silenced nested _)]
  · rw [perform_apply]
    exact congrArg _
      (World.updateDiagnostics_congr (Diagnostics.follow_restore (Nat.le_refl _)).symm)
  · rw [perform_apply] at left
    cases left
    rw [World.diagnostics_updateDiagnostics known, Diagnostics.silentDepth_follow_restore]
  · rw [perform_apply] at entered
    cases entered
    rw [World.diagnostics_updateDiagnostics known]
    exact Diagnostics.silentDepth_follow (.silence .nil opens) _
  · have inside : opened.diagnostics c = (w.diagnostics c).follow (silence :: inner) := by
      rw [perform_apply] at entered
      cases entered
      exact World.diagnostics_updateDiagnostics known _
    -- what is thrown passes all silencings that are open, so all of them are left
    have restored : (u.updateDiagnostics c Diagnostics.clearSilent).diagnostics c =
        (w.diagnostics c).clearSilent := by
      rw [World.diagnostics_updateDiagnostics there, same, inside,
        Diagnostics.clearSilent_opened opens]
    refine ⟨_, rfl, restored.trans (Diagnostics.clearSilent_eq _), fun shallow => ?_,
      fun left => ⟨?_, throws_unwindsTo entered throws there left⟩⟩
    · rw [restored, Diagnostics.clearSilent_of_outside shallow]
    · have outside := (congrArg Diagnostics.silentDepth restored).trans
        (Diagnostics.silentDepth_clearSilent _)
      have still := Diagnostics.follow_restore (Nat.le_trans (Nat.le_of_eq outside) (Nat.zero_le left))
      rw [perform_apply, World.updateDiagnostics_self
        (still.trans (Diagnostics.clearSilent_of_outside outside))]

def noticing : Host (List Severity) :=
  { Host.idle with
    handleException := fun _ c _ => do
      let mask := (← Run.context c).diagnostics.mask
      modify fun w => { w with embedder := w.embedder ++ [mask] } }

def reporting : World (List Severity) where
  contexts := Pool.empty.add
    { (default : Context) with
      diagnostics := { Diagnostics.make .all with exceptionHandler := some ⟨0⟩ } }
  files := FileTree.make "/"
  observers := standardObservers
  embedder := []

def bare : Exception := ⟨none, "x", ⟨[], 0, 0⟩, [], none, none⟩

theorem restores_mask_twice : reporting.contexts.has ⟨0⟩ ∧
    ∃ v, execute noticing ⟨0⟩ (leaving ⟨0⟩ 1 (perform ⟨0⟩ [silence, setMask .warning, silence] >>=
      fun _ => Exceptions.throwException ⟨0⟩ bare)) reporting = (.ok none, v) ∧
      v.embedder = [.all] ∧ (v.diagnostics ⟨0⟩).mask = .all := by
  have known : reporting.contexts.has ⟨0⟩ := by decide
  obtain ⟨-, -, thrown⟩ := restores_mask ⟨0⟩ reporting known
  have opens : Opens 1 [setMask .warning, silence] := .silence (.setMask _ .nil) (.wellNested .nil)
  obtain ⟨-, throws⟩ := thrown 1 _ opens _ rfl
  obtain ⟨v, same, -, -, unwinds⟩ := throws _ bare _ (Exceptions.throwException_throws bare)
    known rfl
  subst same
  exact ⟨known, _, ((unwinds 1).2.executed rfl noticing).trans rfl, rfl, rfl⟩

end Silencing

end ScriptHost
