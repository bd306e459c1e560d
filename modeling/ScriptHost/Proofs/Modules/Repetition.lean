import ScriptHost.Proofs.Boundary.Classification
import ScriptHost.Proofs.Modules.Likeness

set_option autoImplicit false

namespace ScriptHost

open Run

variable {τ : Type} {c : ContextId} {s : ScopeId} {h : Host τ} {P Q : Pairing}

abbrev Pairing.Loads {ε : Type} (P : Pairing) : Except ε ModuleId → Except ε ModuleId → Prop :=
  Ends fun m m' => P.Pairs (.module m) (.module m')

structure Host.Repeats (h : Host τ) (c : ContextId) (s : ScopeId) : Prop where
  compile : ∀ P k source,
    (h.compile k c source).Parallels c s P Pairing.Loads (h.compile k c source)
  undump : ∀ P k source payload,
    (h.undump k c source payload).Parallels c s P Pairing.Loads (h.undump k c source payload)
  dump : ∀ (P : Pairing) k m m', P.Pairs (.module m) (.module m') →
    (h.dump k m).Parallels c s P Pairing.Same (h.dump k m')
  fetchCached : ∀ P k name digest,
    (h.fetchCached k name digest).Parallels c s P Pairing.Same (h.fetchCached k name digest)
  saveCached : ∀ P k name digest payload, (h.saveCached k name digest payload).Parallels c s P
    Pairing.Same (h.saveCached k name digest payload)
  enterClass : ∀ P hook, (h.enterClass hook c).Parallels c s P Pairing.Same (h.enterClass hook c)
  handleError : ∀ P k m, (h.handleError k c m).Parallels c s P Pairing.Same (h.handleError k c m)
  reportError : ∀ P k m, (h.reportError k c m).Parallels c s P Pairing.Same (h.reportError k c m)
  filterOutput : ∀ k chunk mode, (h.filterOutput k c chunk mode).Returns

theorem Run.Parallels.kept {m m' : Run τ Unit} (first : m.Preserves c) (second : m'.Preserves c)
    (returns : m.Returns) (returns' : m'.Returns) : m.Parallels c s P Pairing.Same m' := by
  intro Q _ w w' like
  obtain ⟨_, _, result⟩ := returns w
  obtain ⟨_, _, result'⟩ := returns' w'
  refine ⟨Q, .refl Q, like.kept (first w) (second w'), ?_⟩
  rw [result, result']
  exact .ok rfl

namespace Diagnostics

theorem frameAt_parallels (P : Pairing) (trace : Trace) :
    (frameAt c trace : Run τ Frame).Parallels c s P Pairing.Same (frameAt c trace) := by
  refine .bind (context_parallels c s P) fun Q _ x y like => ?_
  rw [Context.topFrame?, Context.topFrame?, like.calls]
  cases y.calls.top.map (·.frame) <;> exact .value fun _ _ => rfl

theorem note_parallels (P : Pairing) (m : Message) :
    (Run.modifyDiagnostics c fun d => { d with last := some m } : Run τ Unit).Parallels c s P
      Pairing.Same (Run.modifyDiagnostics c fun d => { d with last := some m }) :=
  modifyContext_parallels (fun _ => rfl) (fun _ => rfl) fun _ _ _ _ relates => relates

variable (discreet : h.IsDiscreet c) (repeats : h.Repeats c s)
include discreet repeats

theorem echoBytes_parallels (P : Pairing) (text : Bytes) :
    (Output.echoBytes h c text).Parallels c s P Pairing.Same (Output.echoBytes h c text) :=
  have kept := Output.echoBytes_closed (isClosed_preserves c) discreet.filterOutput text
  have returns := Output.echoBytes_closed (isClosed_returns c) repeats.filterOutput text
  .kept kept kept returns returns

theorem reportError_parallels (P : Pairing) (m : Message) :
    (reportError h c m).Parallels c s P Pairing.Same (reportError h c m) := by
  refine .bind (context_parallels c s P) fun Q _ x y like => ?_
  have report : x.diagnostics.report = y.diagnostics.report :=
    congrArg Context.Conduct.report like.conduct
  rw [report]
  cases y.diagnostics.report.onError with
  | some k => exact repeats.reportError Q k m
  | none =>
    exact .bind (echoBytes_parallels discreet repeats Q _) fun O _ _ _ _ =>
      echoBytes_parallels discreet repeats O _

theorem trigger_parallels (P : Pairing) (m : Message) :
    (trigger h c m).Parallels c s P Pairing.Same (trigger h c m) := by
  refine .bind (note_parallels P m) fun Q _ _ _ _ => ?_
  refine .bind (context_parallels c s Q) fun O _ x y like => ?_
  have decided (N : Pairing) (handled : Bool) : (do
      if !handled && (← Run.context c).diagnostics.mask.enables m.severity then
        reportError h c m : Run τ Unit).Parallels c s N Pairing.Same (do
      if !handled && (← Run.context c).diagnostics.mask.enables m.severity then
        reportError h c m) := by
    refine .bind (context_parallels c s N) fun M _ x y like => ?_
    have mask : x.diagnostics.mask = y.diagnostics.mask :=
      congrArg Context.Conduct.mask like.conduct
    rw [mask]
    cases !handled && y.diagnostics.mask.enables m.severity with
    | true => exact reportError_parallels discreet repeats M m
    | false => exact .value fun _ _ => rfl
  rw [like.accepting?]
  cases y.diagnostics.accepting? m.severity with
  | some handler =>
    refine .bind (repeats.handleError O handler.callback m) fun N _ handled handled' same => ?_
    cases same
    exact decided N handled
  | none => exact decided O false

theorem raiseText_parallels (P : Pairing) (severity : Severity) (trace : Trace) (text : Bytes) :
    (raiseText h c severity trace text).Parallels c s P Pairing.Same
      (raiseText h c severity trace text) := by
  refine .bind (frameAt_parallels P trace) fun Q _ frame frame' same => ?_
  cases same
  refine .bind (context_parallels c s Q) fun O _ x y like => ?_
  rw [like.accepting?, Context.snapshot, Context.snapshot, like.calls]
  dsimp only
  split
  next => exact .bind (note_parallels O _) fun _ _ _ _ _ => .unwinds _
  next => exact trigger_parallels discreet repeats O _

end Diagnostics

theorem Run.Parallels.unlessTaken {α : Type} [DecidableEq α] {of : α → Item}
    (injective : Function.Injective of) {current current' a a' : α}
    (there : P.Pairs (of current) (of current')) (pair : P.Pairs (of a) (of a'))
    {m m' : Run τ Bool} (rest : m.Parallels c s P Pairing.Same m') :
    (if current ≠ a then pure false else m : Run τ Bool).Parallels c s P Pairing.Same
      (if current' ≠ a' then pure false else m') := by
  have same := P.eq_iff injective there pair
  by_cases own : current = a
  · rwa [if_neg (not_not.2 own), if_neg (not_not.2 (same.1 own))]
  · rw [if_pos own, if_pos (mt same.2 own)]
    exact .value fun _ _ => rfl

namespace ClassRegistry

variable (discreet : h.IsDiscreet c) (repeats : h.Repeats c s) {k k' : ClassId}
include discreet repeats

theorem enter_parallels (pair : P.Pairs (.ofClass k) (.ofClass k')) :
    (enter h c k).Parallels c s P Pairing.Same (enter h c k') := by
  refine .bind (classOf_parallels pair) fun Q within e e' ⟨name, trace, _, onEnter⟩ => ?_
  have lower : e.lowerName = e'.lowerName := congrArg Bytes.lower name
  rw [lower, name, trace, onEnter]
  refine .bind (modifyContext_parallels (fun _ => rfl) (fun _ => rfl) fun O wide x y relates =>
    { relates with classes := relates.classes.insert (wide _ _ (within _ _ pair)) _ })
    fun O _ _ _ _ => ?_
  cases e'.onEnter with
  | none => exact .value fun _ _ => rfl
  | some hook =>
    refine .bind (repeats.enterClass O hook) fun N _ failure failure' same => ?_
    cases same
    cases failure with
    | none => exact .value fun _ _ => rfl
    | some f =>
      refine .bind (modifyContext_parallels (fun _ => rfl) (fun _ => rfl) fun O _ x y relates =>
        { relates with classes := relates.classes.erase _ }) fun M _ _ _ _ => ?_
      exact Diagnostics.raiseText_parallels discreet repeats M _ _ _

theorem find_parallels (P : Pairing) (name : Bytes) :
    (find h c name).Parallels c s P (Pairing.Found .ofClass) (find h c name) := by
  unfold find findLower
  refine .bind (context_parallels c s P) fun Q within x y like => ?_
  have held : Q.Found .ofClass (x.classes.get? (withoutSeparator name).lower)
    (y.classes.get? (withoutSeparator name).lower) := like.relates.classes _
  rw [like.home, like.home']
  generalize x.classes.get? (withoutSeparator name).lower = a at held ⊢
  generalize y.classes.get? (withoutSeparator name).lower = b at held ⊢
  cases held with
  | some pair => exact .value fun _ wide => .some (wide _ _ pair)
  | none =>
    refine .bind (scope_parallels c s Q) fun O _ x y like => ?_
    have shared : O.Found .ofClass (x.classes.get? (withoutSeparator name).lower)
      (y.classes.get? (withoutSeparator name).lower) := like.relates.classes _
    generalize x.classes.get? (withoutSeparator name).lower = a at shared ⊢
    generalize y.classes.get? (withoutSeparator name).lower = b at shared ⊢
    cases shared with
    | none => exact .value fun _ _ => .none
    | some pair =>
      refine .bind (classOf_parallels pair) fun N within e e' ⟨_, _, isStatic, _⟩ => ?_
      rw [isStatic]
      split
      next => exact .value fun _ _ => .none
      next =>
        have pair' := within _ _ pair
        exact .bind (enter_parallels discreet repeats pair') fun M wide _ _ _ =>
          .value fun _ wider => .some (wider _ _ (wide _ _ pair'))

theorem declare_parallels (pair : P.Pairs (.ofClass k) (.ofClass k')) :
    (declare h c k).Parallels c s P Pairing.Same (declare h c k') := by
  refine .bind (classOf_parallels pair) fun Q within e e' ⟨name, _, _, _⟩ => ?_
  rw [name]
  refine .bind (find_parallels discreet repeats Q _) fun O wide held held' found => ?_
  have pair := wide _ _ (within _ _ pair)
  cases found with
  -- a class that is held is the declared one in both worlds or in neither, as pairs are one to one
  | some there =>
    exact .value fun N wide =>
      N.beq_eq Item.ofClass_injective (wide _ _ there) (wide _ _ pair)
  | none =>
    refine .bind (classOf_parallels pair) fun N wide e e' ⟨name, _, isStatic, _⟩ => ?_
    have lower : e.lowerName = e'.lowerName := congrArg Bytes.lower name
    have pair := wide _ _ pair
    have declared (M : Pairing) (wide : N.Within M) :
        (do enter h c k; return true : Run τ Bool).Parallels c s M Pairing.Same
          (do enter h c k'; return true) :=
      .bind (enter_parallels discreet repeats (wide _ _ pair)) fun _ _ _ _ _ =>
        .value fun _ _ => rfl
    dsimp only
    rw [isStatic, lower]
    split
    next =>
      refine .bind (scopeOf_parallels c s N) fun M wide t t' ⟨own, own'⟩ => ?_
      subst own
      subst own'
      refine .bind (scope_parallels c _ M) fun L wide' x y like => ?_
      have pair := wide' _ _ (wide _ _ pair)
      have entering : L.Pairs (.ofClass (Scope.enter x.classes e'.lowerName k).1)
          (.ofClass (Scope.enter y.classes e'.lowerName k').1) ∧
          L.Tables .ofClass (Scope.enter x.classes e'.lowerName k).2
            (Scope.enter y.classes e'.lowerName k').2 :=
        like.relates.classes.enter pair e'.lowerName
      generalize Scope.enter x.classes e'.lowerName k = entered at entering ⊢
      generalize Scope.enter y.classes e'.lowerName k' = entered' at entering ⊢
      obtain ⟨current, classes⟩ := entered
      obtain ⟨current', classes'⟩ := entered'
      obtain ⟨there, tables⟩ := entering
      refine .unlessTaken Item.ofClass_injective there pair ?_
      refine .bind (modifyScope_parallels fun J wide x y like =>
        ⟨like.stem, { like.relates with classes := tables.later wide }⟩) fun J wide'' _ _ _ => ?_
      exact declared J ((wide.trans wide').trans wide'')
    next => exact declared N (.refl N)

end ClassRegistry

namespace FunctionRegistry

variable {f f' : FunctionId}

theorem fetch_parallels (P : Pairing) (name : Bytes) :
    (fetch c name : Run τ (Option FunctionId)).Parallels c s P (Pairing.Found .ofFunction)
      (fetch c name) := by
  refine .bind (context_parallels c s P) fun Q within x y like => ?_
  have held : Q.Found .ofFunction (x.functions.get? (withoutSeparator name).lower)
    (y.functions.get? (withoutSeparator name).lower) := like.relates.functions _
  rw [like.home, like.home']
  generalize x.functions.get? (withoutSeparator name).lower = a at held ⊢
  generalize y.functions.get? (withoutSeparator name).lower = b at held ⊢
  cases held with
  | some pair => exact .value fun _ wide => .some (wide _ _ pair)
  | none =>
    refine .bind (scope_parallels c s Q) fun O _ x y like => ?_
    have shared : O.Found .ofFunction (x.functions.get? (withoutSeparator name).lower)
      (y.functions.get? (withoutSeparator name).lower) := like.relates.functions _
    generalize x.functions.get? (withoutSeparator name).lower = a at shared ⊢
    generalize y.functions.get? (withoutSeparator name).lower = b at shared ⊢
    cases shared with
    | none => exact .value fun _ _ => .none
    | some pair =>
      refine .bind (modifyContext_parallels (fun _ => rfl) (fun _ => rfl) fun _ wide _ _ relates =>
        { relates with functions := relates.functions.insert (wide _ _ pair) _ })
        fun N wide _ _ _ => ?_
      exact .value fun _ wider => .some (wider _ _ (wide _ _ pair))

theorem declare_parallels (pair : P.Pairs (.ofFunction f) (.ofFunction f')) :
    (declare c f : Run τ Bool).Parallels c s P Pairing.Same (declare c f') := by
  refine .bind (functionOf_parallels pair) fun Q within e e' ⟨name, _, isStatic⟩ => ?_
  have lower : e.lowerName = e'.lowerName := congrArg Bytes.lower name
  rw [name, isStatic, lower]
  refine .bind (fetch_parallels Q _) fun O wide held held' found => ?_
  have pair := wide _ _ (within _ _ pair)
  cases found with
  | some there =>
    exact .value fun N wide =>
      N.beq_eq Item.ofFunction_injective (wide _ _ there) (wide _ _ pair)
  | none =>
    have declared (M : Pairing) (wide : O.Within M) : (do
        Run.modifyContext c fun x => { x with functions := x.functions.insert e'.lowerName f }
        return true : Run τ Bool).Parallels c s M Pairing.Same (do
        Run.modifyContext c fun x => { x with functions := x.functions.insert e'.lowerName f' }
        return true) :=
      .bind (modifyContext_parallels (fun _ => rfl) (fun _ => rfl) fun _ wider _ _ relates =>
        { relates with functions := relates.functions.insert (wider _ _ (wide _ _ pair)) _ })
        fun _ _ _ _ _ => .value fun _ _ => rfl
    dsimp only
    split
    next =>
      refine .bind (scopeOf_parallels c s O) fun M wide t t' ⟨own, own'⟩ => ?_
      subst own
      subst own'
      refine .bind (scope_parallels c _ M) fun L wide' x y like => ?_
      have pair := wide' _ _ (wide _ _ pair)
      have entering : L.Pairs (.ofFunction (Scope.enter x.functions e'.lowerName f).1)
          (.ofFunction (Scope.enter y.functions e'.lowerName f').1) ∧
          L.Tables .ofFunction (Scope.enter x.functions e'.lowerName f).2
            (Scope.enter y.functions e'.lowerName f').2 :=
        like.relates.functions.enter pair e'.lowerName
      generalize Scope.enter x.functions e'.lowerName f = entered at entering ⊢
      generalize Scope.enter y.functions e'.lowerName f' = entered' at entering ⊢
      obtain ⟨current, functions⟩ := entered
      obtain ⟨current', functions'⟩ := entered'
      obtain ⟨there, tables⟩ := entering
      refine .unlessTaken Item.ofFunction_injective there pair ?_
      refine .bind (modifyScope_parallels fun J wide x y like =>
        ⟨like.stem, { like.relates with functions := tables.later wide }⟩) fun J wide'' _ _ _ => ?_
      exact declared J ((wide.trans wide').trans wide'')
    next => exact declared O (.refl O)

end FunctionRegistry

namespace ConstantRegistry

variable {k k' : ConstantId}

theorem add_parallels (pair : P.Pairs (.ofConstant k) (.ofConstant k')) :
    (add c k : Run τ Unit).Parallels c s P Pairing.Same (add c k') := by
  refine .bind (constantOf_parallels pair) fun Q within e e' ⟨name, _, sensitive⟩ => ?_
  exact modifyContext_parallels (fun _ => rfl) (fun _ => rfl) fun O wide _ _ relates =>
    { relates with constants := relates.constants.add (wide _ _ (within _ _ pair)) name sensitive }

theorem find_parallels (P : Pairing) (name : Bytes) :
    (find c name : Run τ (Option ConstantId)).Parallels c s P (Pairing.Found .ofConstant)
      (find c name) := by
  refine .bind (context_parallels c s P) fun Q within x y like => ?_
  have held : Q.Found .ofConstant (x.constants.find? (withoutSeparator name))
    (y.constants.find? (withoutSeparator name)) := like.relates.constants.find? _
  rw [like.home, like.home']
  generalize x.constants.find? (withoutSeparator name) = a at held ⊢
  generalize y.constants.find? (withoutSeparator name) = b at held ⊢
  cases held with
  | some pair => exact .value fun _ wide => .some (wide _ _ pair)
  | none =>
    refine .bind (scope_parallels c s Q) fun O _ x y like => ?_
    have shared : O.Found .ofConstant (x.constants.find? (withoutSeparator name))
      (y.constants.find? (withoutSeparator name)) := like.relates.constants.find? _
    generalize x.constants.find? (withoutSeparator name) = a at shared ⊢
    generalize y.constants.find? (withoutSeparator name) = b at shared ⊢
    cases shared with
    | none => exact .value fun _ _ => .none
    | some pair =>
      exact .bind (add_parallels pair) fun N wide _ _ _ =>
        .value fun _ wider => .some (wider _ _ (wide _ _ pair))

theorem enterSet_pairs {d d' : ConstantSet} (sets : P.Sets d d') {e e' : Constant}
    (name : e.name = e'.name) (sensitive : e.isCaseSensitive = e'.isCaseSensitive)
    (pair : P.Pairs (.ofConstant k) (.ofConstant k')) :
    P.Pairs (.ofConstant (enterSet d e k).1) (.ofConstant (enterSet d' e' k').1) ∧
      P.Sets (enterSet d e k).2 (enterSet d' e' k').2 := by
  have found := sets.find? e.name
  unfold enterSet
  rw [← name]
  generalize d.find? e.name = a at found ⊢
  generalize d'.find? e.name = b at found ⊢
  cases found with
  | some there => exact ⟨there, sets⟩
  | none => exact ⟨pair, sets.add pair name sensitive⟩

theorem declare_parallels (pair : P.Pairs (.ofConstant k) (.ofConstant k')) :
    (declare c k : Run τ Bool).Parallels c s P Pairing.Same (declare c k') := by
  refine .bind (constantOf_parallels pair) fun Q within e e' ⟨name, _, sensitive⟩ => ?_
  rw [show find c e.name = (find c e'.name : Run τ (Option ConstantId)) by rw [name]]
  refine .bind (find_parallels Q _) fun O wide held held' found => ?_
  have pair := wide _ _ (within _ _ pair)
  cases found with
  | some there =>
    exact .value fun N wide =>
      N.beq_eq Item.ofConstant_injective (wide _ _ there) (wide _ _ pair)
  | none =>
    refine .bind (scopeOf_parallels c s O) fun M wide t t' ⟨own, own'⟩ => ?_
    subst own
    subst own'
    refine .bind (scope_parallels c _ M) fun L wide' x y like => ?_
    have pair := wide' _ _ (wide _ _ pair)
    have entering : L.Pairs (.ofConstant (enterSet x.constants e k).1)
        (.ofConstant (enterSet y.constants e' k').1) ∧
        L.Sets (enterSet x.constants e k).2 (enterSet y.constants e' k').2 :=
      enterSet_pairs like.relates.constants name sensitive pair
    generalize enterSet x.constants e k = entered at entering ⊢
    generalize enterSet y.constants e' k' = entered' at entering ⊢
    obtain ⟨current, constants⟩ := entered
    obtain ⟨current', constants'⟩ := entered'
    obtain ⟨there, sets⟩ := entering
    refine .unlessTaken Item.ofConstant_injective there pair ?_
    refine .bind (modifyScope_parallels fun J wide x y like =>
      ⟨like.stem, { like.relates with constants := sets.later wide }⟩) fun J wide'' _ _ _ => ?_
    exact .bind (add_parallels (wide'' _ _ pair)) fun _ _ _ _ _ => .value fun _ _ => rfl

end ConstantRegistry

namespace Modules

variable {m m' : ModuleId}

section Declaring

variable (discreet : h.IsDiscreet c) (repeats : h.Repeats c s)
include discreet repeats

theorem declareClasses_parallels {ks ks' : List ClassId}
    (pairs : List.Forall₂ (fun a b => P.Pairs (.ofClass a) (.ofClass b)) ks ks') :
    (declareClasses h c ks).Parallels c s P Pairing.Same (declareClasses h c ks') := by
  induction pairs with
  | nil => exact .value fun _ _ => rfl
  | cons pair _ ih =>
    refine .bind (classOf_parallels pair) fun Q within e e' ⟨_, _, isStatic, _⟩ => ?_
    have pair := within _ _ pair
    dsimp only
    rw [isStatic]
    split
    next =>
      refine .bind (ClassRegistry.declare_parallels discreet repeats pair)
        fun O wide b b' same => ?_
      cases same
      split
      next =>
        refine .bind (classOf_parallels (wide _ _ pair)) fun N wider e e' ⟨name, trace, _, _⟩ => ?_
        rw [name, trace]
        refine .bind (Diagnostics.raiseText_parallels discreet repeats N _ _ _)
          fun M widest _ _ _ => ?_
        exact ih.later (((within.trans wide).trans wider).trans widest)
      next => exact ih.later (within.trans wide)
    next => exact ih.later within

theorem declareFunctions_parallels {fs fs' : List FunctionId}
    (pairs : List.Forall₂ (fun a b => P.Pairs (.ofFunction a) (.ofFunction b)) fs fs') :
    (declareFunctions h c fs).Parallels c s P Pairing.Same (declareFunctions h c fs') := by
  induction pairs with
  | nil => exact .value fun _ _ => rfl
  | cons pair _ ih =>
    refine .bind (functionOf_parallels pair) fun Q within e e' ⟨name, trace, isStatic⟩ => ?_
    dsimp only
    rw [isStatic, name, trace]
    split
    next =>
      refine .bind (FunctionRegistry.declare_parallels (within _ _ pair)) fun O wide b b' same => ?_
      cases same
      split
      next =>
        refine .bind (Diagnostics.raiseText_parallels discreet repeats O _ _ _)
          fun M wider _ _ _ => ?_
        exact ih.later ((within.trans wide).trans wider)
      next => exact ih.later (within.trans wide)
    next => exact ih.later within

theorem declareConstants_parallels {ks ks' : List ConstantId}
    (pairs : List.Forall₂ (fun a b => P.Pairs (.ofConstant a) (.ofConstant b)) ks ks') :
    (declareConstants h c ks).Parallels c s P Pairing.Same (declareConstants h c ks') := by
  induction pairs with
  | nil => exact .value fun _ _ => rfl
  | cons pair _ ih =>
    refine .bind (ConstantRegistry.declare_parallels pair) fun Q within b b' same => ?_
    cases same
    dsimp only
    split
    next =>
      refine .bind (constantOf_parallels (within _ _ pair)) fun O wide e e' ⟨name, trace, _⟩ => ?_
      rw [name, trace]
      refine .bind (Diagnostics.raiseText_parallels discreet repeats O _ _ _)
        fun M wider _ _ _ => ?_
      exact ih.later ((within.trans wide).trans wider)
    next => exact ih.later within

theorem register_parallels (pair : P.Pairs (.module m) (.module m')) :
    (register h c m).Parallels c s P Pairing.Same (register h c m') := by
  have declared : (declareAll h c m).Parallels c s P Pairing.Same (declareAll h c m') := by
    refine .bind (moduleOf_parallels pair) fun Q within e e' likens => ?_
    refine .bind (declareClasses_parallels discreet repeats likens.classes) fun O wide _ _ _ => ?_
    refine .bind (declareFunctions_parallels discreet repeats (likens.later wide).functions)
      fun N wider _ _ _ => ?_
    exact declareConstants_parallels discreet repeats (likens.later (wide.trans wider)).constants
  refine .bind declared fun Q within _ _ _ => ?_
  have pair := within _ _ pair
  refine .bind (moduleOf_parallels pair) fun O wide e e' likens => ?_
  rw [likens.name, likens.internalName]
  refine modifyContext_parallels (fun _ => rfl) (fun _ => rfl) fun N wider x y relates => ?_
  have pair := wider _ _ (wide _ _ pair)
  refine { relates with modules := ?_, moduleIndex := relates.moduleIndex.insert pair _ }
  show N.Tables .module (if e'.name.isEmpty then _ else _) (if e'.name.isEmpty then _ else _)
  split
  next => exact relates.modules
  next => exact relates.modules.insert pair _

end Declaring

end Modules

end ScriptHost
