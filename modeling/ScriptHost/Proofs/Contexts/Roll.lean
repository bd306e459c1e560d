import ScriptHost.Proofs.Embedder.Requests

set_option autoImplicit false

namespace ScriptHost

variable {σ τ : Type} {making : List ContextId}

structure Scope.Setup where
  ids : AllocatorId
  compiler : Option Compiler
  cache : Option ModuleCache
  includePaths : List Bytes
  mask : Severity
  extensions : List Callback

def Scope.setup (s : Scope) : Scope.Setup :=
  ⟨s.ids, s.compiler, s.cache, s.includePaths, s.mask, s.extensions⟩

instance : Inhabited Scope.Setup := ⟨(default : Scope).setup⟩

def Object.unmarked (o : Object) : Object := { o with isFinalized := false }

structure Roll where
  contexts : Pool .contexts Context.Lease
  scopes : Pool .scopes Scope.Setup
  objects : Pool .objects Object
  allocators : Pool .allocators IdAllocator
  tables : Nat

namespace Roll

def idsOf (r : Roll) (s : ScopeId) : AllocatorId := (r.scopes.get s).ids

def enlist (r : Roll) (s : ScopeId) : Roll :=
  { r with
    contexts := r.contexts.add
      ⟨s, (r.allocators.get (r.idsOf s)).acquire.1, false, ⟨r.tables⟩⟩
    allocators := r.allocators.modify (r.idsOf s)
      fun _ => (r.allocators.get (r.idsOf s)).acquire.2
    tables := r.tables + 1 }

def close (r : Roll) (c : ContextId) : Roll :=
  { r with
    contexts := r.contexts.modify c fun x => { x with isClosed := true }
    allocators := r.allocators.modify (r.idsOf (r.contexts.get c).scope)
      (·.release (r.contexts.get c).number) }

inductive Step (asked : Option Operation) (r : Roll) : Roll → Prop
  | same : Step asked r r
  | newTable : Step asked r { r with tables := r.tables + 1 }
  | newObject (o : Object) : Step asked r { r with objects := r.objects.add o }
  | newScope (s : Scope.Setup) (numbered : r.allocators.has s.ids) :
      Step asked r { r with scopes := r.scopes.add s }
  | newAllocator : Step asked r { r with allocators := r.allocators.add .empty }
  | taken (a : AllocatorId) (running : asked = some (.acquire a)) :
      Step asked r
        { r with allocators := r.allocators.modify a fun _ => (r.allocators.get a).acquire.2 }
  | given (a : AllocatorId) (id : Nat) (running : asked = some (.release a id)) :
      Step asked r { r with allocators := r.allocators.modify a (·.release id) }
  | enlisted (s : ScopeId) (known : r.scopes.has s) (creates : asked.any Operation.creates) :
      Step asked r (r.enlist s)
  | closed (c : ContextId) (a : Action) (there : r.contexts.has c)
      (isOpen : (r.contexts.get c).isClosed = false) (running : asked = some (.act c a)) :
      Step asked r (r.close c)

variable {asked : Option Operation} {r r' : Roll} {c : ContextId}

theorem scope_close (r : Roll) (c d : ContextId) :
    ((r.close c).contexts.get d).scope = (r.contexts.get d).scope :=
  r.contexts.modify_keeps c d _ Context.Lease.scope fun _ => rfl

theorem globals_close (r : Roll) (c d : ContextId) :
    ((r.close c).contexts.get d).globals = (r.contexts.get d).globals :=
  r.contexts.modify_keeps c d _ Context.Lease.globals fun _ => rfl

theorem Step.has_context (step : Step asked r r') (there : r.contexts.has c) :
    r'.contexts.has c := by
  cases step with
  | enlisted s => exact Pool.has_add _ _ _ there
  | closed d => exact (Pool.has_modify ..).trans there
  | _ => exact there

theorem Step.new_context (step : Step asked r r') (there : r'.contexts.has c) :
    r.contexts.has c ∨ asked.any Operation.creates := by
  cases step with
  | enlisted s known creates => exact .inr creates
  | closed d => exact .inl ((Pool.has_modify ..).symm.trans there)
  | _ => exact .inl there

structure IsLaidOut (r : Roll) : Prop where
  housed : ∀ c, r.contexts.has c → r.scopes.has (r.contexts.get c).scope
  numbered : ∀ s, r.scopes.has s → r.allocators.has (r.idsOf s)
  supplied : ∀ c, r.contexts.has c → (r.contexts.get c).globals.index < r.tables
  apart : ∀ c d, r.contexts.has c → r.contexts.has d →
    (r.contexts.get c).globals = (r.contexts.get d).globals → c = d

theorem IsLaidOut.enlist (laidOut : r.IsLaidOut) {s : ScopeId} (known : r.scopes.has s) :
    (r.enlist s).IsLaidOut := by
  have old {c : ContextId} (there : r.contexts.has c) :
      (r.enlist s).contexts.get c = r.contexts.get c := Pool.get_add_of_has _ _ there
  have new : (r.enlist s).contexts.get r.contexts.next =
      ⟨s, (r.allocators.get (r.idsOf s)).acquire.1, false, ⟨r.tables⟩⟩ := Pool.get_add_next ..
  refine ⟨fun c there => ?_, fun t known => ?_, fun c there => ?_, fun c d there also => ?_⟩
  · rcases Pool.has_add_iff.1 there with there | rfl
    · rw [old there]
      exact laidOut.housed c there
    · rw [new]
      exact known
  · exact (Pool.has_modify ..).trans (laidOut.numbered t known)
  · rcases Pool.has_add_iff.1 there with there | rfl
    · rw [old there]
      exact Nat.lt_succ_of_lt (laidOut.supplied c there)
    · rw [new]
      exact Nat.lt_succ_self r.tables
  · -- the new table lies beyond those of the other contexts
    have beyond {e : ContextId} (there : r.contexts.has e)
        (same : (r.contexts.get e).globals = ⟨r.tables⟩) : False := by
      have inside := laidOut.supplied e there
      rw [same] at inside
      exact Nat.lt_irrefl _ inside
    rcases Pool.has_add_iff.1 there with there | rfl <;>
      rcases Pool.has_add_iff.1 also with also | rfl
    · rw [old there, old also]
      exact laidOut.apart c d there also
    · rw [old there, new]
      exact fun same => (beyond there same).elim
    · rw [old also, new]
      exact fun same => (beyond also same.symm).elim
    · exact fun _ => rfl

theorem Step.laidOut (step : Step asked r r') (laidOut : r.IsLaidOut) : r'.IsLaidOut := by
  cases step with
  | same => exact laidOut
  | newTable =>
    exact { laidOut with supplied := fun c there => Nat.lt_succ_of_lt (laidOut.supplied c there) }
  | newObject => exact { laidOut with }
  | newScope s numbered =>
    refine { laidOut with housed := fun c there => ?_, numbered := fun t known => ?_ }
    · exact Pool.has_add _ _ _ (laidOut.housed c there)
    · show r.allocators.has ((r.scopes.add s).get t).ids
      rcases Pool.has_add_iff.1 known with known | rfl
      · rw [Pool.get_add_of_has _ _ known]
        exact laidOut.numbered t known
      · rw [Pool.get_add_next]
        exact numbered
  | newAllocator =>
    exact { laidOut with numbered := fun s known => Pool.has_add _ _ _ (laidOut.numbered s known) }
  | taken | given =>
    exact { laidOut with
      numbered := fun s known => (Pool.has_modify ..).trans (laidOut.numbered s known) }
  | enlisted s known => exact laidOut.enlist known
  | closed c =>
    -- closing touches neither the scope nor the variables of a context
    have there {d : ContextId} (there : (r.close c).contexts.has d) : r.contexts.has d :=
      (Pool.has_modify ..).symm.trans there
    refine ⟨fun d known => ?_, fun s known => ?_, fun d known => ?_, fun d e known also => ?_⟩
    · rw [scope_close]
      exact laidOut.housed d (there known)
    · exact (Pool.has_modify ..).trans (laidOut.numbered s known)
    · rw [globals_close]
      exact laidOut.supplied d (there known)
    · rw [globals_close, globals_close]
      exact laidOut.apart d e (there known) (there also)

end Roll

namespace World

def roll (w : World τ) : Roll where
  contexts := w.contexts.map Context.lease
  scopes := w.scopes.map Scope.setup
  objects := w.objects.map Object.unmarked
  allocators := w.allocators
  tables := w.tables.size

section Roll

variable {w : World τ} {c : ContextId} {s : ScopeId}

theorem has_roll (w : World τ) (c : ContextId) : w.roll.contexts.has c = w.contexts.has c :=
  Pool.has_map ..

theorem lease_roll (w : World τ) (c : ContextId) : w.roll.contexts.get c = (w.context c).lease :=
  w.contexts.get_map (f := Context.lease) rfl c

theorem setup_roll (w : World τ) (s : ScopeId) : w.roll.scopes.get s = (w.scopes.get s).setup :=
  w.scopes.get_map (f := Scope.setup) rfl s

theorem idsOf_roll (w : World τ) (s : ScopeId) : w.roll.idsOf s = (w.scopes.get s).ids :=
  congrArg Scope.Setup.ids (w.setup_roll s)

theorem object_roll (w : World τ) (o : ObjectId) :
    w.roll.objects.get o = (w.objects.get o).unmarked :=
  w.objects.get_map (f := Object.unmarked) rfl o

theorem roll_updateContext {f : Context → Context} (keeps : ∀ x, (f x).lease = x.lease) :
    (w.updateContext c f).roll = w.roll :=
  congrArg (fun contexts => { w.roll with contexts })
    (w.contexts.map_modify_of_keeps keeps c)

theorem roll_updateScope {f : Scope → Scope} (keeps : ∀ x, (f x).setup = x.setup) :
    (w.updateScope s f).roll = w.roll :=
  congrArg (fun scopes => { w.roll with scopes }) (w.scopes.map_modify_of_keeps keeps s)

theorem roll_markFinalized (o : ObjectId) : (w.markFinalized o).roll = w.roll :=
  congrArg (fun objects => { w.roll with objects })
    (w.objects.map_modify_of_keeps (f := Object.unmarked)
      (g := fun x => { x with isFinalized := true }) (fun _ => rfl) o)

theorem roll_pushFrame (f : Frame) : (w.pushFrame c f).roll = w.roll :=
  roll_updateContext fun _ => rfl

theorem Retires.roll {w v : Recorded σ} {o : ObjectId} (retires : w.Retires c o v) :
    v.roll = w.roll := by
  cases retires with
  | asked => exact roll_markFinalized o
  | visited handle =>
    have given : ((w.markFinalized o).reclaim c handle).roll = (w.markFinalized o).roll :=
      roll_updateContext fun _ => rfl
    exact given.trans (roll_markFinalized o)

theorem roll_popFrame : (w.popFrame c).roll = w.roll := by
  unfold popFrame
  split
  next => rfl
  next => exact roll_updateContext fun _ => rfl

theorem roll_insertClass (k : ClassId) : (w.insertClass c k).roll = w.roll :=
  roll_updateContext fun _ => rfl

theorem roll_recordModule (m : ModuleId) : (w.recordModule c m).roll = w.roll :=
  roll_updateContext fun _ => rfl

theorem roll_setImporting (isImporting : Bool) : (w.setImporting s isImporting).roll = w.roll :=
  roll_updateScope fun _ => rfl

theorem roll_conclude (source : Source) (m : ModuleId) : (w.conclude s source m).roll = w.roll := by
  obtain ⟨internalName, minted, same⟩ := w.conclude_eq s source m
  rw [same]
  exact roll_updateScope (w := w.nameModule m source.name internalName minted) fun _ => rfl

theorem Concluded.roll {w w' : Recorded σ} {source : Source} {m : ModuleId}
    (ended : w.Concluded s source m w') : w'.roll = w.roll := by
  rcases ended with rfl | ⟨rfl, -⟩
  · exact roll_conclude source m
  · rfl

theorem roll_enlist (w : World τ) (s : ScopeId) (sink : SinkId) :
    (w.enlist s sink).roll = w.roll.enlist s := by
  have tables : ((w.tables.add .empty).modify w.tables.next
      (·.insert "GLOBALS" (.table w.tables.next))).size = w.tables.size + 1 :=
    (Pool.size_modify ..).trans (Array.size_push ..)
  unfold Roll.enlist
  rw [w.idsOf_roll s]
  unfold enlist install provide roll
  dsimp only
  rw [tables, Pool.map_add]
  rfl

theorem roll_close (w : World τ) (c : ContextId) : (w.close c).roll = w.roll.close c := by
  have shut : (w.contexts.modify c fun x => { x with isClosed := true }).map Context.lease =
      (w.contexts.map Context.lease).modify c fun x => { x with isClosed := true } :=
    w.contexts.map_modify (f := Context.lease) (fun _ => rfl) c
  unfold Roll.close
  rw [w.lease_roll c, w.idsOf_roll]
  unfold close World.shut updateContext roll
  dsimp only
  rw [shut]
  rfl

end Roll

structure IsKept (P : Recorded σ → Prop) : Prop where
  step : ∀ {w w' : Recorded σ}, P w → Roll.Step w.embedder.running.head? w.roll w'.roll →
    w'.embedder.journal = w.embedder.journal → w'.embedder.running = w.embedder.running → P w'
  note : ∀ {w : Recorded σ} (event : Event), event.isEnd = false → P w → P (w.note event)
  begin : ∀ {w : Recorded σ} (o : Operation), w.IsSampled → P w → P (w.begin o)
  finish : ∀ {w w' : Recorded σ} (o : Operation) (outcome : Except Signal o.Result), P w →
    Course [] (w.begin o) w' → o.Delivers (w.begin o) outcome w' → P w' →
    P (w'.finish w.embedder.running o outcome)

namespace IsKept

variable {P : Recorded σ → Prop} {w w' : Recorded σ}

theorem same (kept : IsKept P) (holds : P w) (roll : w'.roll = w.roll)
    (embedder : w'.embedder = w.embedder) : P w' :=
  kept.step holds (roll ▸ .same) (congrArg _ embedder) (congrArg _ embedder)

theorem change (kept : IsKept P) (step : Change making w w') (holds : P w) : P w' := by
  cases step with
  | surroundings tables allocators sinks databases stores files observers minted supplies
      renumbers =>
    -- the tables first, then the rest
    have supplied : P { w with tables } := by
      refine kept.step holds ?_ rfl rfl
      cases supplies with
      | same => exact .same
      | added t =>
        have grown : (w.tables.add t).size = w.tables.size + 1 := Array.size_push ..
        show Roll.Step _ w.roll { w.roll with tables := (w.tables.add t).size }
        rw [grown]
        exact .newTable
      | assigned c _ _ f | asked t f =>
        show Roll.Step _ w.roll { w.roll with tables := (w.tables.modify _ f).size }
        rw [Pool.size_modify]
        exact .same
    refine kept.step supplied ?_ rfl rfl
    cases renumbers with
    | same => exact .same
    | added => exact .newAllocator
    | taken a running => exact .taken a running
    | given a id running => exact .given a id running
  | note event isPlain =>
    exact kept.note event (Event.isEnd_of_isPlain isPlain) holds
  | setOwn own => exact kept.step holds .same rfl rfl
  | addClass | addMethod | shareClass | addFunction | shareFunction | addConstant | addModule =>
    exact kept.step holds .same rfl rfl
  | addObject o =>
    refine kept.step holds ?_ rfl rfl
    show Roll.Step _ w.roll { w.roll with objects := (w.objects.add o).map Object.unmarked }
    rw [Pool.map_add]
    exact .newObject _
  | addScope s numbered =>
    refine kept.step holds ?_ rfl rfl
    show Roll.Step _ w.roll { w.roll with scopes := (w.scopes.add s.bare).map Scope.setup }
    rw [Pool.map_add]
    exact .newScope s.bare.setup numbered
  | markFinalized o => exact kept.same holds (World.roll_markFinalized o) rfl
  | setDefaults | declareClass | declareFunction | declareConstant =>
    exact kept.same holds (World.roll_updateScope fun _ => rfl) rfl
  | adjust c f adjusts =>
    exact kept.same holds (World.roll_updateContext fun x => (adjusts x).lease) rfl
  | close c a there isOpen asked =>
    refine kept.step holds ?_ rfl rfl
    rw [w.roll_close c]
    exact .closed c a ((w.has_roll c).trans there)
      ((congrArg _ (w.lease_roll c)).trans isOpen) asked
  | popCall c => exact kept.same holds World.roll_popFrame (w.popFrame_embedder c)
  | pushCall | assign | remember | loadClass | cacheFunction | insertFunction | mergeFunctions
  | cacheConstant | insertConstant | inherit | reclaim | drain | track =>
    exact kept.same holds (World.roll_updateContext fun _ => rfl) rfl

theorem course (kept : IsKept P) (course : Course making w w') (holds : P w) : P w' := by
  induction course with
  | still => exact holds
  | change step => exact kept.change step holds
  | trans _ _ ih ih' => exact ih' (ih holds)
  | operation o outcome inner delivers performs ih =>
    exact kept.finish o outcome holds inner delivers (ih (kept.begin o performs.sampled holds))
  | @frame _ _ w' c f _ _ ih =>
    exact kept.same (ih (kept.same holds (World.roll_pushFrame f) rfl)) World.roll_popFrame
      (w'.popFrame_embedder c)
  | autoload c key _ _ _ _ ih =>
    exact kept.same (ih (kept.same holds (World.roll_updateContext fun _ => rfl) rfl))
      (World.roll_updateContext fun _ => rfl) rfl
  | @destructor _ w v w' c o k f _ known _ retires _ calls ih =>
    have marked : P (w.markFinalized o) := kept.same holds (World.roll_markFinalized o) rfl
    have given : P v := retires.elim known calls.acts marked (kept.change · marked)
    have pushed := kept.same given (World.roll_pushFrame (c := c) f) rfl
    exact kept.same (ih (kept.note _ rfl pushed)) World.roll_popFrame (w'.popFrame_embedder c)
  | @hook _ w w' c k k' _ _ _ _ outcome _ _ _ ih =>
    have inserted : P (w.insertClass c k) := kept.same holds (World.roll_insertClass k) rfl
    have noted :=
      kept.note (.answered (.enterClass k' c) outcome) rfl (ih (kept.note _ rfl inserted))
    unfold World.leaveHook
    split
    next => exact kept.same noted (World.roll_updateContext fun _ => rfl) rfl
    next => exact noted
  | registration c m _ _ _ _ ih => exact kept.same (ih holds) (World.roll_recordModule m) rfl
  | attempt _ _ _ _ ih =>
    exact kept.same (ih (kept.same holds (World.roll_setImporting true) rfl))
      (World.roll_setImporting false) rfl
  | loading c source _ _ _ _ event m loaded _ ended ih ih' =>
    have locked := ih (kept.same holds (World.roll_setImporting true) rfl)
    have answered := kept.note event (Event.isEnd_of_loaded loaded) locked
    have concluded := kept.same (ih' answered) ended.roll ended.embedder
    exact kept.same concluded (World.roll_setImporting false) rfl
  | @creation w w' s sink known asked _ ih =>
    refine ih (kept.step holds ?_ rfl rfl)
    rw [w.roll_enlist s sink]
    exact .enlisted s ((w.scopes.has_map Scope.setup s).trans known) asked

end IsKept

end World

namespace World

def Always (P : Recorded σ → Prop) (w : Recorded σ) : Prop :=
  P w ∧ ∀ before m after, w.embedder.journal = before ++ m :: after → P (m.recall (before ++ [m]))

variable {P : Recorded σ → Prop} {w : Recorded σ}

theorem Always.note {event : Event} (always : ∀ before m after,
      w.embedder.journal = before ++ m :: after → P (m.recall (before ++ [m])))
    (holds : P (w.note event)) : (w.note event).Always P := by
  refine ⟨holds, fun before m after split => ?_⟩
  rcases split_concat split with ⟨rfl, rfl, -⟩ | ⟨rest, -, old⟩
  · exact holds
  · exact always before m rest old

theorem IsKept.always (kept : IsKept P) : IsKept (·.Always P) where
  step holds step journal running :=
    ⟨kept.step holds.1 step journal running, fun before m after split =>
      holds.2 before m after (journal ▸ split)⟩
  note event other holds := .note holds.2 (kept.note event other holds.1)
  begin o sampled holds := ⟨kept.begin o sampled holds.1, holds.2⟩
  finish o outcome holds course delivers ended :=
    .note ended.2 (kept.finish o outcome holds.1 course delivers ended.1)

end World

theorem World.laidOut_kept : World.IsKept fun w : Recorded σ => w.roll.IsLaidOut where
  step laidOut step _ _ := step.laidOut laidOut
  note _ _ laidOut := laidOut
  begin _ _ laidOut := laidOut
  finish _ _ _ _ _ laidOut := laidOut

theorem World.start_laidOut (files : FileTree) (own : σ) :
    (World.start files own).roll.IsLaidOut := by
  have empty (c : ContextId) : ¬ (World.start files own).roll.contexts.has c := by
    rw [World.has_roll]
    nofun
  have bare (s : ScopeId) : ¬ (World.start files own).roll.scopes.has s := by
    rw [World.roll, Pool.has_map]
    nofun
  exact ⟨fun c there => absurd there (empty c), fun s known => absurd known (bare s),
    fun c there => absurd there (empty c), fun c _ there => absurd there (empty c)⟩

section Script

variable {ρ : Type} {P : Recorded σ → Prop} {s : Script σ} {depth : Nat} {code : Code σ ρ}
  {files : FileTree} {own : σ}

theorem Script.always (kept : World.IsKept P) (start : P (.start files own)) :
    (code.run (s.host depth) (.start files own)).2.Always P :=
  kept.always.course (s.course depth code files own) ⟨start, fun before _ _ split => by
    cases before <;> cases split⟩

theorem Script.at_moment (kept : World.IsKept P) (start : P (.start files own))
    {before after : List (Moment σ)} {e : Moment σ}
    (split : s.journal depth code files own = before ++ e :: after) :
    P (e.recall (before ++ [e])) :=
  (Script.always kept start).2 before e after split

end Script

end ScriptHost
