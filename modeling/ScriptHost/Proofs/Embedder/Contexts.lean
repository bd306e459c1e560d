import ScriptHost.Execution
import ScriptHost.Proofs.Calls.Recollection
import ScriptHost.Proofs.Embedder.Loading
import ScriptHost.Proofs.Embedder.Objects

set_option autoImplicit false

namespace ScriptHost

open Run

variable {σ : Type} {making : List ContextId} {home : Option ContextId}

theorem World.Ready.enlist {w : Recorded σ} (ready : w.Ready [] home) {s : ScopeId}
    (known : w.scopes.has s) (sink : SinkId) :
    (w.enlist s sink).Ready [w.contexts.next] (some w.contexts.next) :=
  (ready.sound.enlist known sink).readyFor (Pool.has_next_add ..)

structure World.IsChild {τ : Type} (w : World τ) (c parent : ContextId) : Prop where
  apart : parent ≠ c
  known : w.contexts.has c
  parentKnown : w.contexts.has parent
  scope : (w.context c).scope = (w.context parent).scope

theorem World.IsChild.later {τ : Type} {w w' : World τ} {c parent : ContextId}
    (family : w.IsChild c parent) (later : w.Extends w') : w'.IsChild c parent := by
  obtain ⟨known, own, -⟩ := later.contexts c family.known
  obtain ⟨parentKnown, shared, -⟩ := later.contexts parent family.parentKnown
  exact ⟨family.apart, known, parentKnown, own.trans (family.scope.trans shared.symm)⟩

namespace ScopeRegistry

theorem setDefault_follows (s : ScopeId) (key : Bytes) (v : Value) :
    (setDefault s key v : Run (Ledger σ) Unit).Follows home :=
  .bind (textOf_follows v) fun text => .of_change fun _ w =>
    .setDefaults w s (·.insert key text)

theorem declareClass_course {w : Recorded σ} (ready : w.Ready making home) {s : ScopeId} {k : ClassId}
    (known : w.classes.has k) (asked : w.embedder.running.head? = some (.declareClass s k)) :
    Course making w (declareClass s k w : Except Signal _ × Recorded σ).2 := by
  refine .bind ready (.change (.shareClass w k s asked)) fun _ v shared _ => ?_
  cases shared
  generalize same : { w with classes := w.classes.modify k fun e => { e with isStatic := true } } = v
  have known' : v.classes.has k := by rw [← same]; exact (Pool.has_modify ..).trans known
  have isStatic : (v.classes.get k).isStatic := by
    rw [← same]
    exact congrArg Class.isStatic (Pool.get_modify_self w.classes k _ known)
  dsimp only
  rw [same, bind_ok (classOf_apply v k), bind_ok (scope_apply v s)]
  rcases entry : Scope.enter (v.scopes.get s).classes (v.classes.get k).lowerName k with
    ⟨current, classes⟩
  dsimp only
  split
  next => exact .still v
  next taken =>
    obtain rfl := Decidable.not_not.1 taken
    rw [bind_ok (modifyScope_apply v s _), v.updateScope_congr s
      (g := fun x =>
        { x with classes := (Scope.enter x.classes (v.classes.get current).lowerName current).2 })
      (by rw [entry])]
    exact .change (.declareClass v s current known' isStatic)

theorem declareClass_apart (s : ScopeId) (k : ClassId) (w : Recorded σ) :
    (declareClass s k w).2.contexts = w.contexts ∧
      (declareClass s k w).2.embedder.journal = w.embedder.journal := by
  unfold declareClass
  simp only [bind_apply, modify_apply, classOf_apply, scope_apply]
  split <;> exact ⟨rfl, rfl⟩

theorem declareFunction_course {w : Recorded σ} (ready : w.Ready making home) {s : ScopeId}
    {f : FunctionId} (known : w.functions.has f)
    (asked : w.embedder.running.head? = some (.declareFunction s f)) :
    Course making w (declareFunction s f w : Except Signal _ × Recorded σ).2 := by
  refine .bind ready (.change (.shareFunction w f s asked)) fun _ v shared _ => ?_
  cases shared
  generalize same :
    { w with functions := w.functions.modify f fun e => { e with isStatic := true } } = v
  have known' : v.functions.has f := by rw [← same]; exact (Pool.has_modify ..).trans known
  have isStatic : (v.functions.get f).isStatic := by
    rw [← same]
    exact congrArg Function.isStatic (Pool.get_modify_self w.functions f _ known)
  dsimp only
  rw [same, bind_ok (functionOf_apply v f), bind_ok (scope_apply v s)]
  rcases entry : Scope.enter (v.scopes.get s).functions (v.functions.get f).lowerName f with
    ⟨current, functions⟩
  dsimp only
  split
  next => exact .still v
  next taken =>
    obtain rfl := Decidable.not_not.1 taken
    rw [bind_ok (modifyScope_apply v s _), v.updateScope_congr s
      (g := fun x => { x with
        functions := (Scope.enter x.functions (v.functions.get current).lowerName current).2 })
      (by rw [entry])]
    exact .change (.declareFunction v s current known' isStatic)

theorem declareFunction_apart (s : ScopeId) (f : FunctionId) (w : Recorded σ) :
    (declareFunction s f w).2.contexts = w.contexts ∧
      (declareFunction s f w).2.embedder.journal = w.embedder.journal := by
  unfold declareFunction
  simp only [bind_apply, modify_apply, functionOf_apply, scope_apply]
  split <;> exact ⟨rfl, rfl⟩

theorem declareConstant_course {w : Recorded σ} (s : ScopeId) {k : ConstantId}
    (known : w.constants.has k) :
    Course making w (declareConstant s k w : Except Signal _ × Recorded σ).2 := by
  rw [declareConstant, bind_ok (constantOf_apply w k), bind_ok (scope_apply w s)]
  rcases entry : ConstantRegistry.enterSet (w.scopes.get s).constants (w.constants.get k) k with
    ⟨current, constants⟩
  dsimp only
  split
  next => exact .still w
  next =>
    rw [bind_ok (modifyScope_apply w s _), w.updateScope_congr s
      (g := fun x =>
        { x with constants := (ConstantRegistry.enterSet x.constants (w.constants.get k) k).2 })
      (by rw [entry])]
    exact .change (.declareConstant w s k known)

end ScopeRegistry

namespace Execution

theorem setUp_closed {τ : Type} {P : (α : Type) → Run τ α → Prop}
    (bind : ∀ {α β : Type} {m : Run τ α} {f : α → Run τ β}, P α m → (∀ a, P β (f a)) →
      P β (m >>= f))
    {h : Host τ} {c : ContextId} {scope : Scope} {options : ContextOptions}
    (path : ∀ value, P _ (Settings.followIncludePath c value))
    (search : ∀ paths, P _ (Run.modifyContext c fun x =>
      { x with searchPath := x.searchPath.addAll paths }))
    (fetch : P _ (FunctionRegistry.fetch c fallbackFunction))
    (functionOf : ∀ f, P _ (Run.functionOf f))
    (fallback : ∀ a, P _ (Run.modifyAutoload c fun chain => { chain with fallback := a }))
    (configure : P _ (Run.modifyContext c fun x => { x with
      diagnostics := { x.diagnostics with mask := options.mask.getD x.diagnostics.mask }
      shell := options.shell }))
    (extensions : P _ (loadExtensions h c scope.extensions)) : P _ (setUp h c scope options) := by
  have ended := bind configure fun _ => extensions
  unfold setUp
  dsimp only
  cases scope.defaults.get? "include_path"
  case' some value => refine bind (path (some value)) fun _ => ?_
  all_goals
    refine bind (search scope.includePaths) fun _ => bind fetch fun found => ?_
    cases found with
    | none => exact ended
    | some f => exact bind (functionOf f) fun e => bind (fallback _) fun _ => ended

theorem onShutdown_follows (c : ContextId) (k : Callback) :
    (onShutdown c k : Run (Ledger σ) Unit).Follows (some c) :=
  modifyContext_follows c _ fun _ => ⟨rfl, rfl, rfl, .same, .same, List.prefix_append _ _⟩

theorem close_apply {τ : Type} (c : ContextId) (w : World τ) :
    close c w = (.ok (), if (w.context c).isClosed then w else w.close c) := by
  rw [close, bind_ok (context_apply w c)]
  split <;> rfl

theorem close_course {w : Recorded σ} {c : ContextId} (there : w.contexts.has c) {a : Action}
    (asked : w.embedder.running.head? = some (.act c a)) :
    Course making w (close c w : Except Signal Unit × Recorded σ).2 := by
  rw [close_apply]
  split
  next => exact .still w
  next isOpen => exact .change (.close w c a there (by simpa using isOpen) asked)

section

variable {h : Host (Ledger σ)} (follows : h.Follows)
include follows

theorem finalizeGuarded_follows (c : ContextId) : (finalizeGuarded h c).Follows (some c) := by
  refine .bind (Boundary.guard_follows (Lifecycle.finalize_follows follows c)) fun raised => ?_
  split
  next f => exact .bind (Boundary.catchUncaught_follows follows c f) fun _ => .pure _
  next => exact .pure _

theorem runShutdown_follows (c : ContextId) (rounds i : Nat) :
    (runShutdown h c rounds i).Follows (some c) := by
  induction rounds generalizing i with
  | zero => exact .throw _
  | succ rounds ih =>
    refine .bind (context_follows c) fun x => ?_
    split
    next k _ =>
      refine .bind (Boundary.guard_follows (follows.answer (.shutDown k c) rfl)) fun raised => ?_
      split
      next => exact ih _
      next f =>
        dsimp only
        split
        next =>
          exact .bind (finalizeGuarded_follows follows c) fun _ =>
            .bind (Boundary.catchUncaught_follows follows c f) fun _ => .pure _
        next => exact .bind (Boundary.catchUncaught_follows follows c f) fun _ => .pure _
    next => exact .pure _

theorem final_follows (c : ContextId) : (final h c).Follows (some c) :=
  .bind (runShutdown_follows follows c _ 0) fun _ =>
    .bind (finalizeGuarded_follows follows c) fun _ =>
      .bind (Output.flushAll_follows follows c) fun _ => modifyDiagnostics_follows c _

theorem shutdown_course {w : Recorded σ} {c : ContextId} (ready : w.Ready making (some c))
    {a : Action} (asked : w.embedder.running.head? = some (.act c a)) :
    Course making w (shutdown h c w).2 := by
  have ended := final_follows follows c making w ready
  rw [shutdown, ensuring_apply]
  exact ended.trans
    (close_course ((ended.ready ready).present c rfl) (ended.running ▸ asked))

theorem loadExtensions_follows (c : ContextId) (extensions : List Callback) :
    (loadExtensions h c extensions).Follows (some c) := by
  induction extensions with
  | nil => exact .pure _
  | cons k rest ih => exact .bind (follows.answer (.loadExtension k c) rfl) fun _ => ih

theorem setUp_follows (c : ContextId) (scope : Scope) (options : ContextOptions) :
    (setUp h c scope options).Follows (some c) :=
  setUp_closed (P := fun _ m => m.Follows (some c)) .bind
    (fun _ => Settings.setSearchPath_follows c _)
    (fun _ => configure_follows c _ fun _ => rfl)
    (FunctionRegistry.fetch_follows c _) functionOf_follows
    (fun a => modifyAutoload_follows c _ fun _ => .fallback a)
    (configure_follows c _ fun _ => rfl)
    (loadExtensions_follows follows c _)

theorem create_sets {w : Recorded σ} (ready : w.Ready [] home) {s : ScopeId}
    (known : w.scopes.has s) (sink : SinkId) (options : ContextOptions) :
    Course [w.contexts.next] (w.enlist s sink) (create h s sink options w).2 ∧
      ∀ c, (create h s sink options w).1 = .ok c → c = w.contexts.next := by
  have enlisted := ready.enlist known sink
  have rest : create h s sink options w =
      (setUp h w.contexts.next (w.scopes.get s) options >>= fun _ => pure w.contexts.next)
        (w.enlist s sink) := rfl
  constructor
  · rw [rest]
    exact .bind enlisted (setUp_follows follows _ _ options _ _ enlisted) fun _ v _ _ => .still v
  · intro c returned
    rcases result : create h s sink options w with ⟨outcome, v⟩
    rw [result] at returned
    rw [rest, show outcome = .ok c from returned] at result
    obtain ⟨_, _, _, last⟩ := of_bind_ok result
    cases last
    rfl

omit follows in
theorem makes_of_course {w w' : Recorded σ} {s : ScopeId} {sink : SinkId}
    (course : Course [w.contexts.next] (w.enlist s sink) w') : w.Makes w' w.contexts.next := by
  refine ⟨rfl, (course.extends.contexts _ (Pool.has_next_add ..)).1, fun d there => ?_⟩
  rcases course.handedOut nofun there with enlisted | out
  · by_cases new : d = w.contexts.next
    · exact .inr (.inl new)
    · exact .inl (Pool.has_of_has_add enlisted new)
  · exact .inr (.inr out)

theorem create_course {w : Recorded σ} (ready : w.Ready [] home) {s : ScopeId}
    (known : w.scopes.has s) (sink : SinkId) (options : ContextOptions)
    (running : w.embedder.running.head? = some (.newContext s sink options)) :
    Course [] w (create h s sink options w).2 ∧
      (Operation.newContext s sink options).Delivers w (create h s sink options w).1
        (create h s sink options w).2 := by
  obtain ⟨course, returned⟩ := create_sets follows ready known sink options
  refine ⟨.creation s sink known (by rw [running]; rfl) course, fun c result => ?_⟩
  obtain rfl := returned c result
  refine ⟨makes_of_course course, course.mindful_of_parentless ready.sound known ?_⟩
  rw [running]
  nofun

theorem enterClasses_course {w : Recorded σ} {c parent : ContextId}
    (ready : w.Ready making (some c)) {options : ContextOptions} (inside : c ∈ making)
    (family : w.IsChild c parent) (classes : List ClassId) (known : ∀ k ∈ classes, w.classes.has k)
    (held : ∀ k ∈ classes, w.HasHeld parent k)
    (running : w.embedder.running.head? = some (.newChild parent options)) :
    Course making w (enterClasses h c classes w).2 := by
  induction classes generalizing w with
  | nil => exact .still w
  | cons k rest ih =>
    have here := List.mem_cons_self (a := k) (l := rest)
    have entrance : w.Entrance making c k :=
      .takenOver inside parent options running (held k here) family.scope
    have entered := ClassRegistry.enter_course follows ready (known k here) entrance
    have recorded {d : ClassId} (held : w.HasHeld parent d) :=
      ClassRegistry.enter_held follows ready (known k here) entrance family.apart held
    refine .bind ready entered fun _ v done later => ?_
    rw [done] at entered recorded
    refine ih later (family.later entered.extends) (fun d member => ?_) (fun d member => ?_)
      (entered.running ▸ running)
    · exact (entered.extends.classes d (known d (List.mem_cons_of_mem _ member))).1
    · exact recorded (held d (List.mem_cons_of_mem _ member))

theorem takeOver_course {w : Recorded σ} {c parent : ContextId}
    (ready : w.Ready making (some c)) {options : ContextOptions} (inside : c ∈ making)
    (family : w.IsChild c parent)
    (running : w.embedder.running.head? = some (.newChild parent options)) :
    ∃ outcome w', (do enterClasses h c (← ClassRegistry.all parent); return c) w = (outcome, w') ∧
      Course making w w' ∧ ∀ d, outcome = .ok d → d = c := by
  have found {k : ClassId} (member : k ∈ Bytes.sortBy (fun k => (w.classes.get k).name)
      (w.contexts.get parent).classes.values) :
      ∃ key, (w.context parent).classes.get? key = some k :=
    Table.mem_values.1 (List.mem_mergeSort.1 member)
  have known : ∀ k ∈ Bytes.sortBy (fun k => (w.classes.get k).name)
      (w.contexts.get parent).classes.values, w.classes.has k := by
    intro k member
    obtain ⟨key, found⟩ := found member
    exact ((ready.sound.contexts parent).declarations.classes key k found).1
  have course := enterClasses_course follows ready inside family _ known
    (fun k member => .inl (found member)) running
  rw [bind_ok (show ClassRegistry.all parent w = (.ok _, w) from rfl), bind_apply]
  rcases entered : enterClasses h c _ w with ⟨signal | _, w'⟩ <;> rw [entered] at course
  · exact ⟨_, w', rfl, course, fun _ result => nomatch result⟩
  · exact ⟨_, w', rfl, course, fun _ result => (Except.ok.inj result).symm⟩

theorem createChild_sets {w : Recorded σ} (ready : w.Ready [] home) {parent : ContextId}
    (known : w.contexts.has parent) (options : ContextOptions)
    (running : w.embedder.running.head? = some (.newChild parent options)) :
    Course [w.contexts.next] (w.enlist (w.context parent).scope (w.context parent).output.sink)
        (createChild h parent options w).2 ∧
      ∀ c, (createChild h parent options w).1 = .ok c → c = w.contexts.next := by
  have housed := ready.sound.housed parent known
  obtain ⟨made, returned⟩ :=
    create_sets follows ready housed (w.context parent).output.sink options
  rw [createChild, bind_ok (context_apply w parent), bind_apply]
  rcases created : create h (w.context parent).scope (w.context parent).output.sink options w with
    ⟨signal | c, v⟩ <;> rw [created] at made returned
  · exact ⟨made, nofun⟩
  · obtain rfl := returned c rfl
    have family : (w.enlist (w.context parent).scope (w.context parent).output.sink).IsChild
        w.contexts.next parent := by
      obtain ⟨there, scope, -⟩ := (w.extends_enlist (w.context parent).scope
        (w.context parent).output.sink).contexts parent known
      refine ⟨Pool.ne_next_of_has _ known, Pool.has_next_add .., there, ?_⟩
      rw [scope]
      show ((w.contexts.add _).get w.contexts.next).scope = _
      rw [Pool.get_add_next]
      rfl
    -- what the parent has is taken over first, and then its classes enter the child one by one
    have set := made.trans
      (.change (.inherit v _ parent List.mem_cons_self (family.later made.extends).scope))
    obtain ⟨outcome, w', result, entered, same⟩ := takeOver_course follows
      (set.ready (ready.enlist housed _)) List.mem_cons_self (family.later set.extends)
      (set.running ▸ running)
    dsimp only
    rw [bind_ok (context_apply v parent), bind_ok (modifyContext_apply v _ _), result]
    exact ⟨set.trans entered, same⟩

theorem createChild_course {w : Recorded σ} (ready : w.Ready [] home) {parent : ContextId}
    (known : w.contexts.has parent) (options : ContextOptions)
    (running : w.embedder.running.head? = some (.newChild parent options)) :
    Course [] w (createChild h parent options w).2 ∧
      (Operation.newChild parent options).Delivers w (createChild h parent options w).1
        (createChild h parent options w).2 := by
  obtain ⟨course, returned⟩ := createChild_sets follows ready known options running
  refine ⟨.creation _ _ (ready.sound.housed parent known) (by rw [running]; rfl) course,
    fun c result => ?_⟩
  obtain rfl := returned c result
  exact makes_of_course course

end

end Execution

end ScriptHost
