import ScriptHost.Proofs.Calls.Balance
import ScriptHost.Proofs.Registry.Stability

set_option autoImplicit false

namespace ScriptHost

open Run

variable {σ τ : Type} {making : List ContextId}

def Bytes.Spells (name other : Bytes) : Prop :=
  other.lower = name.lower ∨ ∃ rest : Bytes, other = 0x5c :: rest ∧ rest.lower = name.lower

theorem Bytes.Spells.lower {name other : Bytes} (plain : name.head? ≠ some 0x5c)
    (spells : name.Spells other) : (withoutSeparator other).lower = name.lower := by
  rcases spells with same | ⟨rest, rfl, same⟩
  · have single : other.head? ≠ some 0x5c := fun separated =>
      plain ((Bytes.head?_lower name).1 (same ▸ (Bytes.head?_lower other).2 separated))
    rw [withoutSeparator_of_plain single, same]
  · exact same

def Run.Refuses {α : Type} (m : Run τ α) (c : ContextId) (text : Bytes) (w : World τ) : Prop :=
  ∃ e d, e.severity = .error ∧ e.message = text ∧ m w = (.error (.failure (.fatal e)),
    w.updateContext c fun x => { x with diagnostics := { x.diagnostics with last := some d } })

theorem Diagnostics.error_refuses (h : Host τ) (c : ContextId) (trace : Trace) (text : Bytes)
    (w : World τ) : (Diagnostics.error h c trace text).Refuses c text w :=
  ⟨_, _, rfl, rfl, Diagnostics.raiseText_fatal h c (by decide) (by decide) trace text w⟩

namespace Run.Refuses

variable {α β : Type} {c : ContextId} {text : Bytes} {w w' : World τ}

theorem bind {m : Run τ α} (refuses : m.Refuses c text w) (f : α → Run τ β) :
    (m >>= f).Refuses c text w := by
  obtain ⟨e, d, severity, message, same⟩ := refuses
  exact ⟨e, d, severity, message, by rw [bind_apply, same]⟩

theorem of_bind {m : Run τ α} {f : α → Run τ β} {a : α} (first : m w = (.ok a, w))
    (refuses : (f a).Refuses c text w) : (m >>= f).Refuses c text w := by
  unfold Refuses
  rwa [bind_ok first]

end Run.Refuses

def Module.functionAt (m : Module) (number : Int) : Option FunctionId :=
  if number < 0 then none else m.functions[number.toNat]?

theorem Module.mem_of_functionAt {m : Module} {number : Int} {f : FunctionId}
    (chosen : m.functionAt number = some f) : f ∈ m.functions :=
  List.mem_of_getElem? (Option.ite_none_left_eq_some.1 chosen).2

structure World.KnowsClass (w : World τ) (c : ContextId) (k : ClassId) : Prop where
  found : ∀ (h : Host τ) name, (w.classes.get k).name.Spells name →
    ClassRegistry.find h c name w = (.ok (some k), w) ∧
    ClassRegistry.fetch h c name w = (.ok (some k), w)
  refused : ∀ (h : Host τ) j, j ≠ k → (w.classes.get k).name.Spells (w.classes.get j).name →
    (ClassRegistry.register h c j).Refuses c
      (ClassRegistry.redeclared (w.classes.get j).name) w

structure World.KnowsFunction (w : World τ) (c : ContextId) (f : FunctionId) : Prop where
  found : ∀ name, (w.functions.get f).name.Spells name →
    FunctionRegistry.fetch c name w = (.ok (some f), w)
  refused : ∀ (h : Host τ) g, g ≠ f → (w.functions.get f).name.Spells (w.functions.get g).name →
    (FunctionRegistry.register h c g).Refuses c
      (FunctionRegistry.redeclared (w.functions.get g).name) w
  redefined : ∀ (h : Host τ) trace index number m g,
    Modules.byIndex c index w = (.ok (some m), w) →
    (w.modules.get m).functionAt number = some g →
    g ≠ f → (w.functions.get f).name.Spells (w.functions.get g).name →
    (Modules.defineFunction h c trace index number).Refuses c
      (FunctionRegistry.redeclared (w.functions.get g).name) w

def World.Denotes (w : World τ) (c : ContextId) (k : ConstantId) (name : Bytes) : Prop :=
  withoutSeparator name = (w.constants.get k).name ∨
    (w.constants.get k).isCaseSensitive = false ∧ (w.constants.get k).name.Spells name ∧
      (w.context c).constants.exact.get? (withoutSeparator name) = none

structure World.KnowsConstant (w : World τ) (c : ContextId) (k : ConstantId) : Prop where
  found : ∀ name, w.Denotes c k name → ConstantRegistry.find c name w = (.ok (some k), w) ∧
    ConstantRegistry.fetch c name w = (.ok (some (w.constants.get k).value), w)
  refused : ∀ (h : Host τ) j, j ≠ k → w.Denotes c k (w.constants.get j).name →
    (ConstantRegistry.register h c j).Refuses c
      (ConstantRegistry.redeclared (w.constants.get j).name) w
  redefined : ∀ (h : Host τ) name value isCaseSensitive, w.Denotes c k name →
    ConstantRegistry.define h c name value isCaseSensitive w =
      (Diagnostics.notice h c (w.context c).trace
        (ConstantRegistry.redeclared (withoutSeparator name)) >>= fun _ => pure false) w

namespace ClassRegistry

variable {c : ContextId} {k : ClassId}

theorem declare_refused {h : Host τ} {w : World τ} {j : ClassId}
    (loaded : (w.context c).classes.get? (withoutSeparator (w.classes.get j).name).lower = some k)
    (other : j ≠ k) : declare h c j w = (.ok false, w) := by
  rw [declare, bind_ok (classOf_apply w j), bind_ok (find_loaded h c w loaded)]
  dsimp only
  rw [beq_eq_false_iff_ne.2 other.symm]
  rfl

theorem knows {w : World τ} (plain : (w.classes.get k).name.head? ≠ some 0x5c)
    (holds : w.Resolves c (.ofClass (w.classes.get k).lowerName k)) : w.KnowsClass c k := by
  have loaded {name : Bytes} (spells : (w.classes.get k).name.Spells name) :
      (w.context c).classes.get? (withoutSeparator name).lower = some k := by
    rw [spells.lower plain]
    exact holds
  refine ⟨fun h name spells => ?_, fun h j other spells => ?_⟩
  · have found := find_loaded h c w (loaded spells)
    exact ⟨found, bind_ok found⟩
  · refine .of_bind (declare_refused (loaded spells) other) ?_
    exact .of_bind (classOf_apply w j) (Diagnostics.error_refuses h c _ _ w)

theorem register_resolves {h : Host (Ledger σ)} (follows : h.Follows) {w w' : Recorded σ}
    (ready : w.Ready making (some c)) (known : w.classes.has k)
    (plain : (w.classes.get k).name.head? ≠ some 0x5c)
    (registered : register h c k w = (.ok (), w')) :
    w'.Resolves c (.ofClass (w.classes.get k).lowerName k) :=
  declare_resolves follows ready known plain
    (of_unless_ok (Diagnostics.error_unwinds h c _ _ _) registered)

end ClassRegistry

namespace FunctionRegistry

variable {c : ContextId} {f : FunctionId}

theorem declare_refused {w : World τ} {g : FunctionId}
    (loaded : (w.context c).functions.get? (withoutSeparator (w.functions.get g).name).lower =
      some f) (other : g ≠ f) : declare c g w = (.ok false, w) := by
  rw [declare, bind_ok (functionOf_apply w g), bind_ok (fetch_loaded loaded)]
  dsimp only
  rw [beq_eq_false_iff_ne.2 other.symm]
  rfl

theorem register_resolves {h : Host (Ledger σ)} {w w' : Recorded σ}
    (ready : w.Ready making (some c)) (known : w.functions.has f)
    (plain : (w.functions.get f).name.head? ≠ some 0x5c)
    (registered : register h c f w = (.ok (), w')) :
    w'.Resolves c (.ofFunction (w.functions.get f).lowerName f) := by
  have declared := of_unless_ok (Diagnostics.error_unwinds h c _ _ _) registered
  obtain ⟨_, v, same, -, holds⟩ := declare_ends ready known
  cases same.symm.trans declared
  exact holds rfl plain

end FunctionRegistry

namespace Modules

variable {c : ContextId}

theorem byIndex_apply (c : ContextId) (index : Bytes) (w : World τ) :
    byIndex c index w = match (w.context c).moduleIndex.get? index with
      | some m => (.ok (some m), w)
      | none => if (w.scopeOf c).isImporting then (.error .exhausted, w)
        else (.ok ((w.scopeOf c).moduleIndex.get? index), w) := by
  rw [byIndex, bind_ok (context_apply w c)]
  cases (w.context c).moduleIndex.get? index with
  | some m => rfl
  | none =>
    dsimp only
    rw [bind_apply, awaitScope_apply,
      show w.scopes.get (w.context c).scope = w.scopeOf c from rfl]
    cases (w.scopeOf c).isImporting <;> rfl

theorem byIndex_congr (w w' : World τ) (contexts : w'.contexts = w.contexts)
    (scopes : w'.scopes = w.scopes) (index : Bytes) :
    byIndex c index w' = ((byIndex c index w).1, w') := by
  rw [byIndex_apply, byIndex_apply, World.scopeOf, World.scopeOf, World.context, World.context,
    contexts, scopes]
  split
  next => rfl
  next => split <;> rfl

theorem defineFunction_refused {h : Host τ} {w : World τ} {trace : Trace} {index : Bytes}
    {number : Int} {m : ModuleId} {f g : FunctionId}
    (indexed : byIndex c index w = (.ok (some m), w))
    (chosen : (w.modules.get m).functionAt number = some g)
    (loaded : (w.context c).functions.get? (withoutSeparator (w.functions.get g).name).lower =
      some f) (other : g ≠ f) :
    (defineFunction h c trace index number).Refuses c
      (FunctionRegistry.redeclared (w.functions.get g).name) w := by
  refine .of_bind indexed (.of_bind (moduleOf_apply w m) ?_)
  unfold Module.functionAt at chosen
  dsimp only
  rw [chosen]
  refine .of_bind (FunctionRegistry.declare_refused loaded other) ?_
  exact .of_bind (functionOf_apply w g) ((Diagnostics.error_refuses h c trace _ w).bind _)

theorem defineFunction_resolves {h : Host (Ledger σ)} {w w' : Recorded σ}
    (ready : w.Ready making (some c)) {trace : Trace} {index : Bytes} {number : Int}
    (defined : defineFunction h c trace index number w = (.ok (.ok ()), w')) :
    ∃ m f, byIndex c index w = (.ok (some m), w) ∧
      (w.modules.get m).functionAt number = some f ∧
      ((w.functions.get f).name.head? ≠ some 0x5c →
        w'.Resolves c (.ofFunction (w.functions.get f).lowerName f)) := by
  obtain ⟨found, v, indexed, rest⟩ := of_bind_ok defined
  -- a module is only looked for, which changes nothing
  obtain rfl : w = v := congrArg Prod.snd ((byIndex_congr w w rfl rfl index).symm.trans indexed)
  cases found with
  | none => cases rest
  | some m =>
    dsimp only at rest
    rw [bind_ok (moduleOf_apply w m)] at rest
    cases chosen : (w.modules.get m).functionAt number with
    | none =>
      unfold Module.functionAt at chosen
      rw [chosen] at rest
      cases rest
    | some f =>
      refine ⟨m, f, indexed, chosen, fun plain => ?_⟩
      have known := ((Module.isGrounded_iff _ w).1 (ready.sound.modules m)).2.1 f
        (Module.mem_of_functionAt chosen)
      unfold Module.functionAt at chosen
      rw [chosen] at rest
      obtain ⟨isDeclared, u, declared, last⟩ := of_bind_ok rest
      cases isDeclared with
      | true =>
        cases last
        obtain ⟨_, v, same, -, holds⟩ := FunctionRegistry.declare_ends ready known
        cases same.symm.trans declared
        exact holds rfl plain
      | false =>
        obtain ⟨e, v, -, last⟩ := of_bind_ok last
        obtain ⟨_, v', raised, -⟩ := of_bind_ok last
        exact absurd raised (Diagnostics.raiseText_unwinds h c (by decide) (by decide) _ _ v v')

end Modules

theorem FunctionRegistry.knows {w : World τ} {c : ContextId} {f : FunctionId}
    (plain : (w.functions.get f).name.head? ≠ some 0x5c)
    (holds : w.Resolves c (.ofFunction (w.functions.get f).lowerName f)) : w.KnowsFunction c f := by
  have loaded {name : Bytes} (spells : (w.functions.get f).name.Spells name) :
      (w.context c).functions.get? (withoutSeparator name).lower = some f := by
    rw [spells.lower plain]
    exact holds
  refine ⟨fun name spells => fetch_loaded (loaded spells), fun h g other spells => ?_,
    fun h trace index number m g indexed chosen other spells => ?_⟩
  · refine .of_bind (declare_refused (loaded spells) other) ?_
    exact .of_bind (functionOf_apply w g) (Diagnostics.error_refuses h c _ _ w)
  · exact Modules.defineFunction_refused indexed chosen (loaded spells) other

theorem FunctionRegistry.knows_later {w u : World τ} {c : ContextId} {f : FunctionId}
    (later : w.Extends u) (known : w.functions.has f)
    (plain : (w.functions.get f).name.head? ≠ some 0x5c)
    (holds : u.Resolves c (.ofFunction (w.functions.get f).lowerName f)) :
    u.KnowsFunction c f := by
  have named := (later.functions f known).2
  refine FunctionRegistry.knows (named ▸ plain) ?_
  rw [Function.lowerName, named]
  exact holds

namespace ConstantRegistry

variable {c : ContextId} {k : ConstantId}

theorem declare_refused {w : World τ} {j : ConstantId}
    (loaded : (w.context c).constants.find? (withoutSeparator (w.constants.get j).name) = some k)
    (other : j ≠ k) : declare c j w = (.ok false, w) := by
  rw [declare, bind_ok (constantOf_apply w j), bind_ok (find_loaded loaded)]
  dsimp only
  rw [beq_eq_false_iff_ne.2 other.symm]
  rfl

theorem find?_of_denotes {w : World τ} (sound : w.Sound)
    (plain : (w.constants.get k).name.head? ≠ some 0x5c)
    (holds : w.Resolves c (.ofConstant (w.constants.get k).name k)) {name : Bytes}
    (denotes : w.Denotes c k name) :
    (w.context c).constants.find? (withoutSeparator name) = some k := by
  have own : (w.context c).constants.find? (w.constants.get k).name = some k := holds
  rcases denotes with same | ⟨insensitive, spells, unclaimed⟩
  · rw [same]
    exact own
  · unfold ConstantSet.find? at own ⊢
    split at own
    next found =>
      cases own
      have sensitive := ((sound.contexts c).declarations.exact _ _ found).2.1
      rw [insensitive] at sensitive
      cases sensitive
    next =>
      rw [unclaimed, spells.lower plain]
      exact own

theorem knows {w : World τ} (sound : w.Sound) (plain : (w.constants.get k).name.head? ≠ some 0x5c)
    (holds : w.Resolves c (.ofConstant (w.constants.get k).name k)) : w.KnowsConstant c k := by
  have loaded {name : Bytes} (denotes : w.Denotes c k name) :
      (w.context c).constants.find? (withoutSeparator name) = some k :=
    find?_of_denotes sound plain holds denotes
  refine ⟨fun name denotes => ?_, fun h j other denotes => ?_,
    fun h name value isCaseSensitive denotes => ?_⟩
  · have found := find_loaded (loaded denotes)
    exact ⟨found, bind_ok found⟩
  · refine .of_bind (declare_refused (loaded denotes) other) ?_
    exact .of_bind (constantOf_apply w j) (Diagnostics.error_refuses h c _ _ w)
  · have single : (withoutSeparator name).head? ≠ some 0x5c := by
      intro separated
      refine plain ((Bytes.head?_lower _).1 ?_)
      rcases denotes with same | ⟨-, spells, -⟩
      · rw [← same]
        exact (Bytes.head?_lower _).2 separated
      · rw [← spells.lower plain]
        exact (Bytes.head?_lower _).2 separated
    have found : find c (withoutSeparator name) w = (.ok (some k), w) :=
      find_loaded (by rw [withoutSeparator_of_plain single]; exact loaded denotes)
    rw [define, bind_ok (show Calls.trace c w = (.ok (w.context c).trace, w) from rfl),
      bind_ok found]
    rfl

theorem register_resolves {h : Host (Ledger σ)} {w w' : Recorded σ}
    (ready : w.Ready making (some c)) (known : w.constants.has k)
    (plain : (w.constants.get k).name.head? ≠ some 0x5c)
    (registered : register h c k w = (.ok (), w')) :
    w'.Resolves c (.ofConstant (w.constants.get k).name k) := by
  have declared := of_unless_ok (Diagnostics.error_unwinds h c _ _ _) registered
  obtain ⟨_, v, same, -, holds⟩ := declare_ends ready known
  cases same.symm.trans declared
  exact holds rfl plain

theorem define_resolves {h : Host τ} {name : Bytes} {value : Value} {isCaseSensitive : Bool}
    {w w' : World τ} (there : w.contexts.has c)
    (plain : (withoutSeparator name).head? ≠ some 0x5c)
    (defined : define h c name value isCaseSensitive w = (.ok true, w')) :
    w'.constants.has w.constants.next ∧ w'.constants.get w.constants.next =
        ⟨withoutSeparator name, value, isCaseSensitive, (w.context c).trace⟩ ∧
      w'.Resolves c (.ofConstant (withoutSeparator name) w.constants.next) := by
  unfold define at defined
  rw [bind_ok (show Calls.trace c w = (.ok (w.context c).trace, w) from rfl)] at defined
  obtain ⟨found, v, tried, rest⟩ := of_bind_ok defined
  cases found with
  | some k =>
    obtain ⟨_, _, -, last⟩ := of_bind_ok rest
    cases last
  | none =>
    obtain ⟨rfl, absent⟩ := find_none tried
    let e : Constant := ⟨withoutSeparator name, value, isCaseSensitive, (v.context c).trace⟩
    have fresh : (v.constants.add e).get v.constants.next = e := Pool.get_add_next ..
    cases rest
    rw [withoutSeparator_of_plain plain] at absent
    have added := add_resolves (w := { v with constants := v.constants.add e }) there absent
      (congrArg Constant.name fresh)
    exact ⟨Pool.has_next_add .., fresh, added⟩

end ConstantRegistry

namespace Operation

/-- Some code asks for an operation, which ends with an outcome. Going on, the code meets another
world, or what it calls does. -/
def Meets (h : Host (Ledger σ)) (o : Operation) (outcome : Except Signal o.Result)
    (w u : Recorded σ) : Prop :=
  ∃ v, o.request h (w.begin o) = (outcome, v) ∧ ∃ (ρ : Type) (code : Code σ ρ),
    u = (code.run h (v.finish w.embedder.running o outcome)).2 ∨
    ∃ m ∈ v.since (code.run h (v.finish w.embedder.running o outcome)).2, u.unrecorded = m.world

theorem of_request_act {h : Host (Ledger σ)} {c : ContextId} {a : Action} {result : a.Result}
    {w v : Recorded σ} (ended : (act c a).request h (w.begin (act c a)) = (.ok result, v))
    (regular : w.IsRegular) :
    w.contexts.has c ∧ a.isGrounded w ∧ (w.begin (act c a)).Ready [] (some c) ∧
      a.perform h c (w.begin (act c a)) = (.ok result, v) := by
  unfold request at ended
  split at ended
  next grounded =>
    obtain ⟨there, grounded⟩ := Bool.and_eq_true_iff.1 grounded
    exact ⟨there, grounded, (regular.sound.begin _).ready.at there (.inr ⟨a, rfl⟩), ended⟩
  next => cases ended

variable {h : Host (Ledger σ)} (scripted : h.IsScripted)
include scripted

theorem Meets.later {o : Operation} {outcome : Except Signal o.Result} {w u : Recorded σ}
    (meets : o.Meets h outcome w u) (regular : w.IsRegular) :
    ∃ v, o.request h (w.begin o) = (outcome, v) ∧ w.Extends u ∧ v.Extends u ∧ u.Sound ∧
      ∀ c r, w.contexts.has c → r.IsPlain → v.Resolves c r → u.Resolves c r := by
  obtain ⟨v, result, ρ, code, meets⟩ := meets
  have within := request_within scripted.follows regular.sound.ready o
  rw [result] at within
  have onward : w.Extends v := (w.extends_begin o).trans within.extends
  have ended := (within.regular (regular.begin o)).1
  have noted := v.extends_finish w.embedder.running o outcome
  have finished : (v.finish w.embedder.running o outcome).IsRegular :=
    ⟨ended.sound.finish w.embedder.running o outcome, ended.whole⟩
  have run := code.run_course scripted.follows scripted finished.sound.ready (World.isSampled_note _ _)
  generalize (code.run h (v.finish w.embedder.running o outcome)).2 = w' at meets run
  rcases meets with rfl | ⟨m, member, same⟩
  · -- the code has come to its end
    have after := noted.trans run.extends
    exact ⟨v, result, onward.trans after, after, run.sound finished.sound,
      fun c r known plain holds =>
        run.keeps finished.sound (onward.contexts c known).1 List.not_mem_nil plain holds⟩
  · -- the world met is on record, with less of the record than there is now
    have since {P : Moment σ → Prop}
        (first : P ⟨.finished o outcome, w.embedder.running, v.unrecorded⟩)
        (rest : (v.finish w.embedder.running o outcome).Adds P w') : P m :=
      ((World.Adds.finish (.of_same rfl) first).trans rest).since m member
    have sound : m.world.IsRegular := since ended.unrecorded (run.regular finished).2
    have met : v.unrecorded.Extends m.world :=
      since (World.Extends.refl _) (run.adds_onward noted)
    rw [← same] at sound met
    have after : v.Extends u := ⟨met.classes, met.functions, met.constants, met.modules,
      met.scopes, met.objects, met.contexts⟩
    refine ⟨v, result, onward.trans after, after, .of_unrecorded sound.sound,
      fun c r known plain holds => ?_⟩
    have kept : m.world.Resolves c r := since holds (run.resolves_throughout finished.sound
      (onward.contexts c known).1 List.not_mem_nil plain holds).2
    rwa [← same] at kept

section Known

variable {c : ContextId} {w u : Recorded σ} (regular : w.IsRegular)
include regular

theorem Meets.knowsClass {k : ClassId}
    (meets : (act c (.registerClass k)).Meets h (.ok ()) w u)
    (plain : (w.classes.get k).name.head? ≠ some 0x5c) : u.KnowsClass c k := by
  obtain ⟨v, ended, later, -, -, keeps⟩ := meets.later scripted regular
  obtain ⟨there, known, ready, registered⟩ := of_request_act ended regular
  have holds :=
    ClassRegistry.register_resolves (w := w.begin _) scripted.follows ready known plain registered
  have named := (later.classes k known).2.1
  refine ClassRegistry.knows (named ▸ plain) ?_
  rw [Class.lowerName, named]
  exact keeps c _ there (mt (Bytes.head?_lower _).1 plain) holds

theorem Meets.knowsFunction {f : FunctionId}
    (meets : (act c (.registerFunction f)).Meets h (.ok ()) w u)
    (plain : (w.functions.get f).name.head? ≠ some 0x5c) : u.KnowsFunction c f := by
  obtain ⟨v, ended, later, -, -, keeps⟩ := meets.later scripted regular
  obtain ⟨there, known, ready, registered⟩ := of_request_act ended regular
  have holds := FunctionRegistry.register_resolves (w := w.begin _) ready known plain registered
  exact FunctionRegistry.knows_later later known plain
    (keeps c _ there (mt (Bytes.head?_lower _).1 plain) holds)

theorem Meets.knowsDefined {trace : Trace} {index : Bytes} {number : Int}
    (meets : (act c (.defineFunction trace index number)).Meets h (.ok (.ok ())) w u) :
    ∃ m f, Modules.byIndex c index w = (.ok (some m), w) ∧
      (w.modules.get m).functionAt number = some f ∧
      ((w.functions.get f).name.head? ≠ some 0x5c → u.KnowsFunction c f) := by
  obtain ⟨v, ended, later, -, -, keeps⟩ := meets.later scripted regular
  obtain ⟨there, -, ready, defined⟩ := of_request_act ended regular
  obtain ⟨m, f, indexed, chosen, holds⟩ := Modules.defineFunction_resolves ready defined
  have same : Modules.byIndex c index w = _ :=
    Modules.byIndex_congr (w.begin (act c (.defineFunction trace index number))) w rfl rfl index
  rw [indexed] at same
  refine ⟨m, f, same, chosen, fun plain => ?_⟩
  have known := ((Module.isGrounded_iff _ w).1 (regular.sound.modules m)).2.1 f
    (Module.mem_of_functionAt chosen)
  exact FunctionRegistry.knows_later later known plain
    (keeps c _ there (mt (Bytes.head?_lower _).1 plain) (holds plain))

theorem Meets.knowsConstant {k : ConstantId}
    (meets : (act c (.registerConstant k)).Meets h (.ok ()) w u)
    (plain : (w.constants.get k).name.head? ≠ some 0x5c) : u.KnowsConstant c k := by
  obtain ⟨v, ended, later, -, sound, keeps⟩ := meets.later scripted regular
  obtain ⟨there, known, ready, registered⟩ := of_request_act ended regular
  have holds := ConstantRegistry.register_resolves (w := w.begin _) ready known plain registered
  have kept := (later.constants k known).2
  exact ConstantRegistry.knows sound (kept ▸ plain) (kept ▸ keeps c _ there plain holds)

theorem Meets.knowsDefinedConstant {name : Bytes} {value : Value} {isCaseSensitive : Bool}
    (meets : (act c (.defineConstant name value isCaseSensitive)).Meets h (.ok true) w u)
    (plain : (withoutSeparator name).head? ≠ some 0x5c) :
    u.constants.get w.constants.next =
        ⟨withoutSeparator name, value, isCaseSensitive, (w.context c).trace⟩ ∧
      u.KnowsConstant c w.constants.next := by
  obtain ⟨v, ended, -, after, sound, keeps⟩ := meets.later scripted regular
  obtain ⟨there, -, ready, defined⟩ := of_request_act ended regular
  obtain ⟨known, made, holds⟩ :=
    ConstantRegistry.define_resolves (w := w.begin _) there plain defined
  have kept : u.constants.get w.constants.next = _ := (after.constants _ known).2.trans made
  refine ⟨kept, ConstantRegistry.knows sound (kept ▸ plain) ?_⟩
  rw [kept]
  exact keeps c _ there plain holds

end Known

end Operation

/-- What is registered is found. A registration that is asked for in a regular world and returns
normally leaves its context with a class, a function or a constant that is found from then on, and
that no other one displaces, for all that the code that has registered it does afterwards, in
callbacks or not. A name that starts with a separator is left out. All worlds in all runs are
regular. -/
theorem Script.registered_found (s : Script σ) (depth : Nat) :
    (∀ (ρ : Type) (code : Code σ ρ) (files : FileTree) (own : σ),
      (code.run (s.host depth) (.start files own)).2.IsRegular ∧
      ∀ m ∈ s.journal depth code files own, m.world.IsRegular) ∧
    ∀ (w u : Recorded σ) (c : ContextId), w.IsRegular →
      (∀ k, (w.classes.get k).name.head? ≠ some 0x5c →
        (Operation.act c (.registerClass k)).Meets (s.host depth) (.ok ()) w u →
        u.KnowsClass c k) ∧
      (∀ f, (w.functions.get f).name.head? ≠ some 0x5c →
        (Operation.act c (.registerFunction f)).Meets (s.host depth) (.ok ()) w u →
        u.KnowsFunction c f) ∧
      (∀ trace index number,
        (Operation.act c (.defineFunction trace index number)).Meets (s.host depth)
          (.ok (.ok ())) w u →
        ∃ m f, Modules.byIndex c index w = (.ok (some m), w) ∧
          (w.modules.get m).functionAt number = some f ∧
          ((w.functions.get f).name.head? ≠ some 0x5c → u.KnowsFunction c f)) ∧
      (∀ k, (w.constants.get k).name.head? ≠ some 0x5c →
        (Operation.act c (.registerConstant k)).Meets (s.host depth) (.ok ()) w u →
        u.KnowsConstant c k) ∧
      ∀ name value isCaseSensitive, (withoutSeparator name).head? ≠ some 0x5c →
        (Operation.act c (.defineConstant name value isCaseSensitive)).Meets (s.host depth)
          (.ok true) w u →
        u.constants.get w.constants.next =
          ⟨withoutSeparator name, value, isCaseSensitive, (w.context c).trace⟩ ∧
        u.KnowsConstant c w.constants.next := by
  refine ⟨fun ρ code files own => ⟨?_, fun m => Script.regular_of_journal⟩,
    fun w u c regular => ⟨fun k plain meets => ?_, fun f plain meets => ?_,
      fun trace index number meets => ?_, fun k plain meets => ?_,
      fun name value isCaseSensitive plain meets => ?_⟩⟩
  · exact ((s.course depth code files own).regular (World.start_isRegular files own)).1
  · exact meets.knowsClass (s.host_scripted depth) regular plain
  · exact meets.knowsFunction (s.host_scripted depth) regular plain
  · exact meets.knowsDefined (s.host_scripted depth) regular
  · exact meets.knowsConstant (s.host_scripted depth) regular plain
  · exact meets.knowsDefinedConstant (s.host_scripted depth) regular plain

theorem Operation.meets_of_ok {h : Host (Ledger σ)} {o : Operation} {a : o.Result}
    {w : Recorded σ} (returned : (o.request h (w.begin o)).1.toOption = some a) :
    o.Meets h (.ok a) w ((o.request h (w.begin o)).2.finish w.embedder.running o (.ok a)) :=
  ⟨_, Prod.ext (eq_ok_of_toOption returned) rfl, Unit, .done (.ok ()), .inl rfl⟩

def stranded : Script Unit := ⟨1, fun _ => .done (.error .exhausted)⟩

def unregistered : Recorded Unit :=
  ((Code.each () (oneContext ++ [newPlainClass "Foo", .newFunction ⟨"bar", false, {}, none⟩,
      .newFunction ⟨"qux", false, {}, none⟩, .newConstant ⟨"Baz", .null, false, {}⟩,
      .newModule { (default : Module) with internalName := "m", functions := [⟨1⟩] },
      .act ⟨0⟩ (.registerModule ⟨0⟩)]) : Code Unit Unit).run (stranded.host 1)
    (.start (FileTree.make "/") ())).2

theorem registered_found_each :
    (∃ u, (Operation.act ⟨0⟩ (.registerClass ⟨0⟩)).Meets (stranded.host 1) (.ok ()) unregistered u ∧
      u.KnowsClass ⟨0⟩ ⟨0⟩) ∧
    (∃ u, (Operation.act ⟨0⟩ (.registerFunction ⟨0⟩)).Meets (stranded.host 1) (.ok ())
        unregistered u ∧ u.KnowsFunction ⟨0⟩ ⟨0⟩) ∧
    (∃ u, (Operation.act ⟨0⟩ (.defineFunction {} "m" 0)).Meets (stranded.host 1) (.ok (.ok ()))
        unregistered u ∧ u.KnowsFunction ⟨0⟩ ⟨1⟩) ∧
    (∃ u, (Operation.act ⟨0⟩ (.registerConstant ⟨0⟩)).Meets (stranded.host 1) (.ok ())
        unregistered u ∧ u.KnowsConstant ⟨0⟩ ⟨0⟩) ∧
    ∃ u, (Operation.act ⟨0⟩ (.defineConstant "\\Baz" .null true)).Meets (stranded.host 1)
        (.ok true) unregistered u ∧ u.KnowsConstant ⟨0⟩ ⟨1⟩ := by
  obtain ⟨runs, found⟩ := stranded.registered_found 1
  have regular : unregistered.IsRegular := (runs Unit _ _ _).1
  have byClass := Operation.meets_of_ok (h := stranded.host 1) (w := unregistered)
    (o := .act ⟨0⟩ (.registerClass ⟨0⟩)) (a := ()) (by decide +kernel)
  have byFunction := Operation.meets_of_ok (h := stranded.host 1) (w := unregistered)
    (o := .act ⟨0⟩ (.registerFunction ⟨0⟩)) (a := ()) (by decide +kernel)
  obtain ⟨result, returned, same⟩ := Option.bind_eq_some_iff.1
    (show ((Operation.act ⟨0⟩ (.defineFunction {} "m" 0)).request (stranded.host 1)
      (unregistered.begin (.act ⟨0⟩ (.defineFunction {} "m" 0)))).1.toOption.bind Except.toOption =
        some () by decide +kernel)
  obtain rfl := eq_ok_of_toOption same
  have byNumber := Operation.meets_of_ok returned
  have byConstant := Operation.meets_of_ok (h := stranded.host 1) (w := unregistered)
    (o := .act ⟨0⟩ (.registerConstant ⟨0⟩)) (a := ()) (by decide +kernel)
  have byName := Operation.meets_of_ok (h := stranded.host 1) (w := unregistered)
    (o := .act ⟨0⟩ (.defineConstant "\\Baz" .null true)) (a := true) (by decide +kernel)
  obtain ⟨classes, -⟩ := found unregistered _ ⟨0⟩ regular
  obtain ⟨-, functions, -⟩ := found unregistered _ ⟨0⟩ regular
  obtain ⟨-, -, numbers, -⟩ := found unregistered _ ⟨0⟩ regular
  obtain ⟨-, -, -, constants, -⟩ := found unregistered _ ⟨0⟩ regular
  obtain ⟨-, -, -, -, names⟩ := found unregistered _ ⟨0⟩ regular
  obtain ⟨m, f, indexed, chosen, knows⟩ := numbers {} "m" 0 byNumber
  have module : (Modules.byIndex ⟨0⟩ "m" unregistered).1.toOption = some (some ⟨0⟩) := by
    decide +kernel
  rw [indexed] at module
  cases module
  have second : (unregistered.modules.get ⟨0⟩).functionAt 0 = some ⟨1⟩ := by decide +kernel
  cases second.symm.trans chosen
  have defined := (names "\\Baz" .null true (by decide +kernel) byName).2
  rw [show unregistered.constants.next = ⟨1⟩ by decide +kernel] at defined
  exact ⟨⟨_, byClass, classes ⟨0⟩ (by decide +kernel) byClass⟩,
    ⟨_, byFunction, functions ⟨0⟩ (by decide +kernel) byFunction⟩,
    ⟨_, byNumber, knows (by decide +kernel)⟩,
    ⟨_, byConstant, constants ⟨0⟩ (by decide +kernel) byConstant⟩,
    ⟨_, byName, defined⟩⟩

def separated : Recorded Unit :=
  ((Code.each () (oneContext ++ List.replicate 2
      (.newClass { Class.make "\\foo" none with isStatic := false })) : Code Unit Unit).run
    (stranded.host 1) (.start (FileTree.make "/") ())).2

theorem separated_class_displaced :
    ∃ u, (Operation.act ⟨0⟩ (.registerClass ⟨0⟩)).Meets (stranded.host 1) (.ok ()) separated u ∧
      (ClassRegistry.fetch (stranded.host 1) ⟨0⟩ "\\foo" u).1 = .ok none ∧
      (ClassRegistry.register (stranded.host 1) ⟨0⟩ ⟨1⟩ u).1 = .ok () ∧
      ((ClassRegistry.register (stranded.host 1) ⟨0⟩ ⟨1⟩ u).2.context ⟨0⟩).classes.get? "\\foo" =
        some ⟨1⟩ := by
  have registers := Operation.meets_of_ok (h := stranded.host 1) (w := separated)
    (o := .act ⟨0⟩ (.registerClass ⟨0⟩)) (a := ()) (by decide +kernel)
  exact ⟨_, registers, eq_ok_of_toOption (by decide +kernel), eq_ok_of_toOption (by decide +kernel),
    by decide +kernel⟩

end ScriptHost
