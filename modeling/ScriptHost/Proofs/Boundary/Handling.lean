import ScriptHost.Proofs.Output.Flushing

set_option autoImplicit false

namespace ScriptHost

open Run

variable {σ : Type}

def Call.isHandling : Call → Bool
  | .filterOutput .. | .reportFatal .. | .handleException .. | .exit .. => true
  | _ => false

section Stretch

variable {t : Stretch σ} {h : Host (Ledger σ)} (nests : h.Nests) {raises : Signal → Prop}
  {w : Recorded σ}

section Reports

variable {asks : Call → Bool} (filters : ∀ k chunk mode, asks (.filterOutput k t.context chunk mode))
  (reports : ∀ k e, asks (.reportFatal k t.context e))
include nests filters reports

theorem Diagnostics.reportFatal_obeys (e : Fatal) (reached : t.Reaches w) :
    (reportFatal h t.context e).Obeys t asks raises w := by
  have filtered (k : Callback) (chunk : Bytes) (mode : OutputMode) (v : Recorded σ)
      (there : t.Reaches v) : (h.filterOutput k t.context chunk mode).Obeys t asks raises v :=
    Output.filterOutput_obeys nests filters k chunk mode there
  have reported (k : Callback) (e : Fatal) (v : Recorded σ) (there : t.Reaches v) :
      (h.reportFatal k t.context e).Obeys t asks raises v := by
    apply Run.Obeys.answer nests there (.reportFatal k t.context e) rfl (reports _ _)
    intro m signal fair same
    simp [Moment.isFair, same, Except.isOk, Except.toBool] at fair
  exact reportFatal_closed (Run.isClosed_obeys t asks raises) filtered reported e w reached

theorem Boundary.reportUncaught_obeys (f : Failure) (reached : t.Reaches w) :
    (reportUncaught h t.context f).Obeys t asks raises w := by
  unfold reportUncaught
  split
  next => exact Diagnostics.reportFatal_obeys nests filters reports _ reached
  next =>
    refine .bind reached (.of_silent (.still w) rfl rfl id) fun _ _ _ reached => ?_
    exact Diagnostics.reportFatal_obeys nests filters reports _ reached

end Reports

namespace Boundary

include nests

theorem exit_obeys {asks : Call → Bool} {status : Int} (asked : asks (.exit t.context status))
    (reached : t.Reaches w) : (h.exit t.context status).Obeys t asks raises w := by
  apply Run.Obeys.answer nests reached (.exit t.context status) rfl asked
  intro m signal fair same
  simp [Moment.isFair, same, Except.isOk, Except.toBool] at fair

theorem handleException_obeys (k : Callback) (f : Failure) (reached : t.Reaches w) :
    (h.handleException k t.context f).Obeys t Call.isHandling (·.isStopped) w := by
  apply Run.Obeys.answer nests reached (.handleException k t.context f) rfl rfl
  intro m signal fair same
  simpa [Moment.isFair, same, endsFairly] using fair

theorem classify_obeys (patient : (t.last.output t.context).burden ≤ h.patience) {rounds : Nat}
    (f : Failure) (reached : t.Reaches w)
    (enough : 1 < rounds ∨ 0 < rounds ∧ w.handler t.context = none) :
    (classify h t.context rounds f).Obeys t Call.isHandling raises w := by
  -- one round with the handler and one without it are enough
  induction rounds generalizing f w with
  | zero => omega
  | succ rounds ih =>
    unfold classify
    split
    next => exact .pure _
    split
    next status payload _ =>
      have flushed : (Output.flushAll h t.context).Obeys t Call.isHandling raises w :=
        Output.flushAll_obeys nests (fun _ _ _ => rfl) patient reached
      refine .bind reached flushed fun _ u _ reached => ?_
      exact .bind reached (exit_obeys nests rfl reached) fun _ _ _ _ => .pure _
    split
    next e _ =>
      have reported : (Diagnostics.reportFatal h t.context e).Obeys t Call.isHandling raises w :=
        Diagnostics.reportFatal_obeys nests (fun _ _ _ => rfl) (fun _ _ => rfl) e reached
      exact .bind reached reported fun _ _ _ _ => .pure _
    split
    next => exact .pure _
    refine .bind reached (.context _) fun x v same reached => ?_
    cases same
    have uncaught : (reportUncaught h t.context f).Obeys t Call.isHandling (fun _ => False) w :=
      reportUncaught_obeys nests (fun _ _ _ => rfl) (fun _ _ => rfl) f reached
    refine .bind reached (.guard ?handled) fun raised v guarded reached' => ?_
    case handled =>
      split
      next k _ => exact handleException_obeys nests k f reached
      next => exact uncaught.mono (fun _ => id) fun _ => False.elim
    refine .bind reached' (.context _) fun y v' same reached' => ?_
    cases same
    split
    next => exact .pure _
    next => exact .pure _
    next e saved slot =>
      by_cases more : 0 < rounds
      · refine .bind reached' (.modifyDiagnostics reached' _) fun _ u withdrawn reached'' => ?_
        cases withdrawn
        have unhandled : World.handler _ t.context = none := v.handler_setHandler_none t.context
        exact .ensuring reached'' (ih e reached'' (.inr ⟨more, unhandled⟩)) fun _ last =>
          .modifyDiagnostics last _
      · -- without a handler the failure has been reported, and a report raises nothing
        have unhandled : (w.contexts.get t.context).diagnostics.exceptionHandler = none := by
          rcases enough with two | ⟨-, none⟩
          · omega
          · exact none
        rw [unhandled] at guarded
        dsimp only at guarded
        obtain ⟨raised, -⟩ := guard_raised guarded
        have withdrawing (k : Option Callback) :
            (setExceptionHandler t.context k).Follows (some t.context) (σ := σ) :=
          setExceptionHandler_follows t.context k
        have again : (classify h t.context rounds e).Follows (some t.context) :=
          classify_follows nests.follows t.context rounds e
        have course := (Run.Follows.bind (withdrawing none) fun _ =>
          .ensuring again (withdrawing (some saved))) _ v reached'.ready
        refine ⟨course, fun onward => ?_⟩
        have nothing := (uncaught.yields (by rw [raised]; exact course.trans onward)).raised
        exact (nothing _ (by rw [raised])).elim

theorem catchUncaught_obeys (patient : (t.last.output t.context).burden ≤ h.patience)
    (enough : 1 < h.patience) (f : Failure) (reached : t.Reaches w) :
    (catchUncaught h t.context f).Obeys t Call.isHandling raises w :=
  classify_obeys nests patient f reached (.inl enough)

end Boundary

end Stretch

end ScriptHost
