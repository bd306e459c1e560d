import ScriptHost.Exceptions
import ScriptHost.LateBinding
import ScriptHost.Lifecycle.Finalization
import ScriptHost.Proofs.Embedder.Registries

set_option autoImplicit false

namespace ScriptHost

open Run

variable {σ : Type} {making : List ContextId} {home : Option ContextId}

namespace LateBinding

theorem closure?_apply {τ : Type} (f : Frame) (w : World τ) :
    (closure? f w = (.ok none, w) ∧ f.IsUnbound w) ∨
    ∃ this, closure? f w = (.ok (some this), w) := by
  unfold closure? FrameOf.IsUnbound
  cases f.self with
  | none => exact .inl ⟨rfl, nofun⟩
  | some o =>
    dsimp only
    rw [bind_ok (objectOf_apply w o)]
    cases binding : (w.objects.get o).binding with
    | plain => exact .inl ⟨rfl, fun _ same => Option.some.inj same ▸ binding⟩
    | closure this => exact .inr ⟨this, rfl⟩

theorem classOfBound_follows (this : Option ObjectId) :
    (classOfBound this : Run (Ledger σ) (Option ClassId)).Follows home := by
  unfold classOfBound
  split
  next o => exact .bind (objectOf_follows o) fun _ => .pure _
  next => exact .pure _

theorem outline_later {w v : Recorded σ} {c : ContextId} (ready : w.Ready making (some c))
    (course : Course making w v) {a b : Activation} (there : a ∈ (w.context c).calls.toList)
    (later : b ∈ (v.context c).calls.toList) (serial : b.serial = a.serial) :
    b.outline = a.outline := by
  have calls := (ready.sound.contexts c).calls
  have continues := (course.extends.contexts c (ready.present c rfl)).2.calls
  obtain ⟨d, before, same⟩ := continues.calls b later (serial ▸ calls.below a there)
  have number : d.serial = a.serial := (Activation.serial_of_outline same).trans serial
  exact same.symm.trans (calls.unique d before a there number)

variable {h : Host (Ledger σ)} (follows : h.Follows)
include follows

section Remembering

variable {w v : Recorded σ} {c : ContextId} {a : Activation}

theorem rememberDeclaring_course (ready : w.Ready making (some c))
    (there : a ∈ (w.context c).calls.toList) {k : ClassId}
    (found : ClassRegistry.find h c a.frame.declaring w = (.ok (some k), v)) :
    Course making v (v.updateContext c
      (·.remember a.serial fun b => { b with declaringClass := some k })) := by
  have searched := (ClassRegistry.find_follows follows c _).course ready found
  refine .change (.remember v c a.serial _ (fun _ => rfl) (fun _ => rfl)
    (fun b later serial before => ?_) ((searched.ready ready).acts c rfl))
  have declaring : b.frame.declaring = a.frame.declaring :=
    congrArg (·.2.declaring) (outline_later ready searched there later serial)
  refine { before with declaring := fun k' same stays => ?_ }
  cases same
  rw [declaring]
  exact (ClassRegistry.find_answers follows ready found).present k rfl stays

theorem rememberStatic_course (ready : w.Ready making (some c))
    (there : a ∈ (w.context c).calls.toList)
    (unbound : a.frame.declaring ≠ [] → a.frame.IsUnbound w) {k : Option ClassId}
    (found : ClassRegistry.find h c a.frame.called w = (.ok k, v)) :
    Course making v (v.updateContext c
      (·.remember a.serial fun b => { b with staticClass := k })) := by
  have searched := (ClassRegistry.find_follows follows c _).course ready found
  refine .change (.remember v c a.serial _ (fun _ => rfl) (fun _ => rfl)
    (fun b later serial before => ?_) ((searched.ready ready).acts c rfl))
  have outline := outline_later ready searched there later serial
  have called : b.frame.called = a.frame.called := congrArg (·.2.called) outline
  have declaring : b.frame.declaring = a.frame.declaring := congrArg (·.2.declaring) outline
  refine { before with static := fun k' same stays => ?_, unbound := fun _ declared o self => ?_ }
  · cases same
    rw [called]
    exact (ClassRegistry.find_answers follows ready found).present k' rfl stays
  · rw [Activation.self_of_outline outline] at self
    have known := (ready.sound.contexts c).calls.known a there o self
    rw [(searched.extends.objects o known).2.2]
    exact unbound (declaring ▸ declared) o self

end Remembering

theorem staticClass_follows (c : ContextId) : (staticClass h c).Follows (some c) := by
  intro making w ready
  rw [staticClass, bind_ok (context_apply w c)]
  cases top : (w.context c).calls.top with
  | none => exact .still w
  | some a =>
    dsimp only
    split
    next => exact .still w
    split
    next => exact .still w
    obtain ⟨same, unbound⟩ | ⟨this, same⟩ := closure?_apply a.frame w
    · rw [bind_ok same]
      refine .bind ready (ClassRegistry.find_follows follows c _ making w ready) fun k v found _ => ?_
      exact rememberStatic_course follows ready (CallStack.mem_peek top) (fun _ => unbound) found
    · rw [bind_ok same]
      exact classOfBound_follows this making w ready

theorem resolveDeclaring_course {w : Recorded σ} {c : ContextId} (ready : w.Ready making (some c))
    {a : Activation} (there : a ∈ (w.context c).calls.toList) :
    Course making w (resolveDeclaring h c a w).2 := by
  unfold resolveDeclaring
  split
  next => exact .still w
  next =>
    refine .bind ready (ClassRegistry.find_follows follows c _ making w ready) fun k v found _ => ?_
    cases k with
    | none => exact .still v
    | some k => exact rememberDeclaring_course follows ready there found

theorem currentClass_follows (c : ContextId) : (currentClass h c).Follows (some c) := by
  intro making w ready
  rw [currentClass, bind_ok (context_apply w c)]
  cases top : (w.context c).calls.top with
  | none => exact .still w
  | some a =>
    dsimp only
    split
    next => exact .still w
    next => exact resolveDeclaring_course follows ready (CallStack.mem_peek top)

omit follows in
theorem currentClass_none {τ : Type} {h : Host τ} {c : ContextId} {w v : World τ}
    (none : currentClass h c w = (.ok none, v)) :
    v = w ∧ ∀ a, (w.context c).calls.top = some a → a.frame.declaring = [] := by
  rw [currentClass, bind_ok (context_apply w c)] at none
  cases top : (w.context c).calls.top with
  | none =>
    rw [top] at none
    cases none
    exact ⟨rfl, nofun⟩
  | some a =>
    rw [top] at none
    dsimp only at none
    split at none
    next undeclared =>
      cases none
      exact ⟨rfl, fun b same => Option.some.inj same ▸ List.isEmpty_iff.1 undeclared⟩
    next =>
      unfold resolveDeclaring at none
      split at none
      -- a frame that declares a class finds one or raises an error, so `none` is never its answer
      next remembered =>
        rw [(Prod.mk.inj none).1 |> Except.ok.inj] at remembered
        cases remembered
      next =>
        obtain ⟨k, u, _, last⟩ := of_bind_ok none
        cases k <;> cases last

theorem fallbackClass_course {w : Recorded σ} {c : ContextId} (ready : w.Ready making (some c))
    (undeclared : ∀ a, (w.context c).calls.top = some a → a.frame.declaring = []) :
    Course making w (fallbackClass h c w).2 := by
  rw [fallbackClass, bind_ok (context_apply w c)]
  cases top : (w.context c).calls.top with
  | none => exact .still w
  | some a =>
    dsimp only
    split
    next => exact .still w
    next named =>
      split
      next => exact .still w
      have called : a.frame.static = a.frame.called := (if_neg named).symm
      rw [called]
      refine .bind ready (ClassRegistry.find_follows follows c _ making w ready) fun k v found _ => ?_
      exact rememberStatic_course follows ready (CallStack.mem_peek top)
        (fun declared => absurd (undeclared a top) declared) found

theorem magicClass_follows (c : ContextId) (name : Bytes) : (magicClass h c name).Follows (some c) := by
  intro making w ready
  unfold magicClass
  split
  next =>
    refine .bind ready (currentClass_follows follows c making w ready) fun found v ended later => ?_
    cases found with
    | some k => exact .still v
    | none =>
      obtain ⟨rfl, undeclared⟩ := currentClass_none ended
      exact fallbackClass_course follows ready undeclared
  split
  next => exact staticClass_follows follows c making w ready
  next => exact .still w

theorem nearestClass_follows (c : ContextId) : (nearestClass h c).Follows (some c) := by
  intro making w ready
  rw [nearestClass, bind_ok (context_apply w c)]
  cases nearest : (w.context c).calls.toList.reverse.find? (!·.frame.declaring.isEmpty) with
  | none => exact .still w
  | some a =>
    dsimp only
    obtain ⟨same, -⟩ | ⟨this, same⟩ := closure?_apply a.frame w
    · rw [bind_ok same]
      exact resolveDeclaring_course follows ready
        (List.mem_reverse.1 (List.mem_of_find?_eq_some nearest))
    · rw [bind_ok same]
      exact classOfBound_follows this making w ready

theorem parentClass_follows (c : ContextId) (trace : Trace) :
    (parentClass h c trace).Follows (some c) := by
  refine .bind (nearestClass_follows follows c) fun found => ?_
  split
  next =>
    exact .bind (Diagnostics.raiseText_follows follows c .error trace _) fun _ => .pure _
  next k =>
    refine .bind (classOf_follows k) fun e => ?_
    split
    next =>
      exact .bind (Diagnostics.raiseText_follows follows c .error trace _) fun _ => .pure _
    next => exact .pure _

theorem parentOf_follows (c : ContextId) (trace : Trace) (className : Bytes) :
    (parentOf h c trace className).Follows (some c) := by
  refine .bind (ClassRegistry.require_follows follows c trace className) fun found => ?_
  split
  next k =>
    refine .bind (classOf_follows k) fun e => ?_
    split
    next =>
      exact .bind (Diagnostics.raiseText_follows follows c .error trace _) fun _ => .pure _
    next => exact .pure _
  next => exact .pure _

end LateBinding

namespace Exceptions

theorem throwException_follows (c : ContextId) (e : Exception) :
    (throwException c e : Run (Ledger σ) Unit).Follows (some c) :=
  .bind (modifyDiagnostics_follows c _) fun _ => .throw _

variable {h : Host (Ledger σ)} (follows : h.Follows)
include follows

theorem throwNamed_follows (c : ContextId) (trace : Trace) (className template : Bytes)
    (args : List Value) : (throwNamed h c trace className template args).Follows (some c) := by
  refine .bind (ClassRegistry.require_follows follows c trace className) fun found => ?_
  split
  next k =>
    refine .bind (classOf_follows k) fun e => ?_
    refine .bind (expand_follows template args) fun message => ?_
    exact .bind (context_follows c) fun x => throwException_follows c _
  next => exact .pure _

theorem throwValue_follows (c : ContextId) (trace : Trace) (v : Value) :
    (throwValue h c trace v).Follows (some c) := by
  unfold throwValue
  split
  next o =>
    refine .bind .get fun w => ?_
    dsimp only
    split
    next => exact Diagnostics.raiseText_follows follows c .error trace _
    next k _ =>
      split
      next => exact .bind (textOf_follows _) fun _ => throwException_follows c _
      next => exact .bind (.pure _) fun _ => throwException_follows c _
  next => exact Diagnostics.raiseText_follows follows c .error trace _

theorem die_follows (c : ContextId) (v : Value) : (die h c v).Follows (some c) := by
  unfold die
  split
  next => exact .throw _
  next => exact .throw _
  next => exact .bind (Output.echo_follows follows c _) fun _ => .throw _

end Exceptions

namespace Lifecycle

theorem track_follows (c : ContextId) (object : Option ObjectId) :
    (track c object : Run (Ledger σ) Nat).Follows (some c) := by
  intro making w ready
  unfold track
  cases object with
  | none => exact .still w
  | some o =>
    dsimp only
    rw [bind_ok (get_apply w)]
    cases ofClass : (w.objects.get o).ofClass with
    | none => exact .still w
    | some k =>
      have known := w.has_of_ofClass ofClass
      dsimp only
      split
      next => exact .still w
      next =>
        have step : Course making _ _ := .change (.track w c o known (ready.acts c rfl))
        rw [w.updateContext_congr c (g := fun x =>
          { x with tracker := ((w.context c).tracker.add o).2 }) rfl] at step
        exact step

theorem track_adds {τ : Type} {w w' : World τ} {c : ContextId} {o : ObjectId} {handle : Nat}
    (there : w.contexts.has c) (ended : track c (some o) w = (.ok handle, w')) :
    handle = 0 ∨ (w.context c).tracker.add o = (handle, (w'.context c).tracker) := by
  unfold track at ended
  dsimp only at ended
  rw [bind_ok (get_apply w)] at ended
  cases ofClass : (w.objects.get o).ofClass with
  | none =>
    rw [ofClass] at ended
    cases ended
    exact .inl rfl
  | some k =>
    rw [ofClass] at ended
    dsimp only at ended
    split at ended
    next =>
      cases ended
      exact .inl rfl
    next =>
      cases ended
      have now := (w.context_updateContext c c fun x =>
        { x with tracker := ((w.context c).tracker.add o).2 }).trans (if_pos ⟨rfl, there⟩)
      exact .inr (Prod.ext rfl (congrArg Context.tracker now).symm)

theorem create_follows {h : Host (Ledger σ)} (follows : h.Follows) (c : ContextId) (trace : Trace)
    (className : Bytes) (args : List Value) : (create h c trace className args).Follows (some c) := by
  have tracked (object : Option ObjectId) :
      (do let _ ← track c object; return object : Run (Ledger σ) (Option ObjectId)).Follows (some c) :=
    .bind (track_follows c object) fun _ => .pure _
  refine .bind (ClassRegistry.require_follows follows c trace className) fun found => ?_
  split
  next k =>
    refine .bind (classOf_follows k) fun e => ?_
    dsimp only
    split
    next callback _ => exact .bind (follows.answer (.createObject callback c k args) rfl) tracked
    next => exact .bind (.map some (.of_change fun _ w => .addObject w _)) tracked
  next => exact .pure _

theorem runDestructor_cases {τ : Type} (h : Host τ) (c : ContextId) (o : ObjectId) (w : World τ) :
    w.destructor? o = none ∧ runDestructor h c o w = (.ok (), w.markFinalized o) ∨
    ∃ callback f, w.destructor? o = some callback ∧ f.self = some o ∧ runDestructor h c o w =
      Calls.during c f (h.destroyObject callback c o) (w.markFinalized o) := by
  rw [← w.destructor?_markFinalized o, runDestructor,
    bind_ok (show modifyObject o _ w = (.ok (), w.markFinalized o) from rfl), bind_ok (get_apply _),
    World.destructor?]
  cases ((w.markFinalized o).objects.get o).ofClass with
  | none => exact .inl ⟨rfl, rfl⟩
  | some k =>
    dsimp only [Option.bind_eq_bind, Option.bind_some]
    cases (w.markFinalized o).classes.findDestructor k with
    | none => exact .inl ⟨rfl, rfl⟩
    | some found =>
      dsimp only [Option.bind_some]
      cases found.2.invoke with
      | none => exact .inl ⟨rfl, rfl⟩
      | some callback => exact .inr ⟨callback, _, rfl, rfl, rfl⟩

theorem runDestructor_course {h : Host (Ledger σ)} (follows : h.Follows) {u w : Recorded σ}
    {c : ContextId} (ready : w.Ready making (some c)) {o : ObjectId} (known : w.objects.has o)
    (pending : (w.objects.get o).isFinalized = false) (retires : w.Retires c o (u.markFinalized o))
    (own : u.destructor? o = w.destructor? o) :
    Course making w (runDestructor h c o u).2 ∧
      (u.markFinalized o).Extends (runDestructor h c o u).2 := by
  obtain ⟨none, same⟩ | ⟨callback, f, destructor, self, same⟩ := runDestructor_cases h c o u
  · have marked : Course making w (w.markFinalized o) :=
      .change (.markFinalized w o (.inr (own ▸ none)))
    rw [same]
    exact ⟨retires.elim (P := Course making w) known (ready.acts c rfl) marked
      fun step => marked.trans (.change step), .refl _⟩
  · obtain ⟨body, inner, answered⟩ := follows (.destroyObject callback c o)
    have named : f.IsKnown w := .of_self self known
    have started := inner making (some c) ((u.markFinalized o).pushFrame c f)
      ((ready.later (ready.sound.retire retires) retires.extends retires.running).pushFrame c
        (named.extend retires.extends))
    rcases result : body (((u.markFinalized o).pushFrame c f).note
      (.called (.destroyObject callback c o))) with ⟨outcome, v⟩
    rw [result] at started
    have ended := started.trans (.note (.answered (.destroyObject callback c o) outcome) rfl rfl)
    rw [same, Calls.during_apply, show h.destroyObject callback c o = _ from answered,
      Call.recorded_snd, result]
    refine ⟨.destructor c o callback f pending known (own ▸ destructor) retires ended
      ⟨ready.acts c rfl, named⟩, ?_⟩
    have called := (World.extends_pushFrame (u.markFinalized o) c f).trans
      (World.extends_note _ (.called (.destroyObject callback c o)))
    exact called.trans (ended.extends.trans (World.extends_popFrame _ c))

theorem drain_follows (c : ContextId) :
    (modifyTracker c Tracker.drain : Run (Ledger σ) Unit).Follows (some c) :=
  .of_own_change fun _ w acts => .drain w c acts

theorem pending_follows (c : ContextId) : (pending c : Run (Ledger σ) Nat).Follows (some c) :=
  .bind (drain_follows c) fun _ => .bind .get fun _ => .pure _

def visit {τ : Type} (h : Host τ) (c : ContextId) (handle : Nat) (o : ObjectId) : Run τ Unit := do
  modifyTracker c (·.reclaim handle)
  runDestructor h c o

theorem visit_apply {τ : Type} (h : Host τ) (c : ContextId) (handle : Nat) (o : ObjectId)
    (w : World τ) : visit h c handle o w = runDestructor h c o (w.reclaim c handle) := rfl

structure Covers (w : World σ) (c : ContextId) (handles : List Nat) (bound : Nat) : Prop where
  ascending : handles.Pairwise (· < ·)
  below : ∀ handle ∈ handles, handle < bound
  given : bound ≤ (w.context c).tracker.next
  pending : ∀ e ∈ (w.context c).tracker.entries, (w.objects.get e.2).isFinalized = false →
    e.1 ∈ handles ∨ bound ≤ e.1
  known : ∀ handle ∈ handles, w.contexts.has c

namespace Covers

variable {w w' : World σ} {c : ContextId} {handle bound : Nat} {rest : List Nat} {o : ObjectId}

theorem start (sound : w.Sound) (c : ContextId) :
    Covers w c (w.context c).tracker.order (w.context c).tracker.next where
  ascending := (sound.contexts c).tracker.ascending
  below handle member :=
    have tracker := (sound.contexts c).tracker
    tracker.below handle ((tracker.listed handle).1 member)
  given := Nat.le_refl _
  pending e member _ := .inl (((sound.contexts c).tracker.listed e.1).2 (Tracker.mem_handles member))
  known handle member := by
    by_cases known : w.contexts.has c
    · exact known
    · have empty : w.context c = default := Pool.get_of_not_has _ known
      rw [empty] at member
      cases member

theorem isFirst (covers : Covers w c (handle :: rest) bound)
    (tracked : (handle, o) ∈ (w.context c).tracker.entries)
    (pending : (w.objects.get o).isFinalized = false) : w.IsFirst c handle o where
  tracked := tracked
  pending := pending
  least e member alive := by
    rcases covers.pending e member alive with inside | beyond
    · rcases List.mem_cons.1 inside with same | later
      · exact Nat.le_of_eq same.symm
      · exact Nat.le_of_lt (List.rel_of_pairwise_cons covers.ascending later)
    · exact Nat.le_trans (Nat.le_of_lt (covers.below handle List.mem_cons_self)) beyond

theorem tail (covers : Covers w c (handle :: rest) bound) (later : w.Extends w')
    (gone : ∀ d, (handle, d) ∈ (w.context c).tracker.entries →
      (w'.objects.get d).isFinalized) : Covers w' c rest bound := by
  have known := covers.known handle List.mem_cons_self
  obtain ⟨known', _, follows, -⟩ := later.contexts c known
  refine ⟨covers.ascending.of_cons, fun h member => covers.below h (List.mem_cons_of_mem _ member),
    Nat.le_trans covers.given follows.next, fun e member alive => ?_, fun _ _ => known'⟩
  by_cases old : e.1 < (w.context c).tracker.next
  · have before := follows.entries e member old
    rcases covers.pending e before (later.alive alive) with inside | beyond
    · rcases List.mem_cons.1 inside with same | inRest
      · have finalized := gone e.2 (same ▸ before)
        exact nomatch finalized.symm.trans alive
      · exact .inl inRest
    · exact .inr beyond
  · exact .inr (Nat.le_trans covers.given (Nat.le_of_not_lt old))

end Covers

theorem finalizePass_cons {τ : Type} (h : Host τ) (c : ContextId) (handle : Nat) (rest : List Nat)
    (w : World τ) :
    finalizePass h c (handle :: rest) w = finalizePass h c rest w ∧
      (∀ o, (w.context c).tracker.object? handle = some o → (w.objects.get o).isFinalized) ∨
    ∃ o, (w.context c).tracker.object? handle = some o ∧ (w.objects.get o).isFinalized = false ∧
      finalizePass h c (handle :: rest) w = (do
        visit h c handle o
        let _ ← finalizePass h c rest
        return true : Run τ Bool) w := by
  rw [finalizePass, bind_ok (get_apply w)]
  cases found : (w.contexts.get c).tracker.object? handle with
  | none => exact .inl ⟨rfl, fun o there => nomatch there.symm.trans found⟩
  | some o =>
    dsimp only
    split
    next finalized =>
      refine .inl ⟨rfl, fun d there => ?_⟩
      cases there.symm.trans found
      exact finalized
    next alive =>
      refine .inr ⟨o, found, by simpa using alive, ?_⟩
      rw [visit, bind_assoc]

theorem Covers.visits {h : Host (Ledger σ)} (follows : h.Follows) {w : Recorded σ} {c : ContextId}
    (ready : w.Ready making (some c)) {handle bound : Nat} {rest : List Nat} {o : ObjectId}
    (covers : Covers w c (handle :: rest) bound)
    (found : (w.context c).tracker.object? handle = some o)
    (pending : (w.objects.get o).isFinalized = false) :
    w.objects.has o ∧ w.IsFirst c handle o ∧ Course making w (visit h c handle o w).2 ∧
      Covers (visit h c handle o w).2 c rest bound := by
  have tracked : (handle, o) ∈ (w.context c).tracker.entries := Tracker.mem_of_object? found
  have tracker := ready.sound.contexts c
  have known : w.objects.has o := tracker.tracked o (List.mem_map.2 ⟨_, tracked, rfl⟩)
  have first := covers.isFirst tracked pending
  obtain ⟨course, later⟩ := runDestructor_course (u := w.reclaim c handle) follows ready known pending
    (.visited handle found first) rfl
  have gone : ((visit h c handle o w).2.objects.get o).isFinalized :=
    (later.objects o ((World.Extends.markFinalized w o).objects o known).1).2.1
      (congrArg Object.isFinalized (Pool.get_modify_self w.objects o _ known))
  refine ⟨known, first, course, covers.tail course.extends fun d member => ?_⟩
  exact tracker.tracker.unique tracked member ▸ gone

theorem Covers.skips {w : World σ} (sound : w.Sound) {c : ContextId} {handle bound : Nat}
    {rest : List Nat} (covers : Covers w c (handle :: rest) bound)
    (done : ∀ o, (w.context c).tracker.object? handle = some o → (w.objects.get o).isFinalized) :
    Covers w c rest bound :=
  covers.tail (.refl w) fun d member =>
    done d ((sound.contexts c).tracker.object?_iff.2 member)

theorem finalizePass_course {h : Host (Ledger σ)} (follows : h.Follows) {w : Recorded σ}
    {c : ContextId} (ready : w.Ready making (some c)) {handles : List Nat} {bound : Nat}
    (covers : Covers w c handles bound) : Course making w (finalizePass h c handles w).2 := by
  induction handles generalizing w with
  | nil => exact .still w
  | cons handle rest ih =>
    obtain ⟨same, done⟩ | ⟨o, found, pending, same⟩ := finalizePass_cons h c handle rest w
    · rw [same]
      exact ih ready (covers.skips ready.sound done)
    · obtain ⟨-, -, course, left⟩ := covers.visits follows ready found pending
      rw [same]
      refine .bind ready course fun _ w' visited ready' => ?_
      rw [visited] at left
      exact .bind ready' (ih ready' left) fun _ w' _ _ => .still w'

theorem finalizePass_covers {h : Host (Ledger σ)} (follows : h.Follows) {w w' : Recorded σ}
    {c : ContextId} (ready : w.Ready making (some c)) {handles : List Nat} {bound : Nat}
    {again : Bool}
    (covers : Covers w c handles bound)
    (returned : finalizePass h c handles w = (.ok again, w')) : Covers w' c [] bound := by
  induction handles generalizing w again with
  | nil =>
    cases returned
    exact covers
  | cons handle rest ih =>
    obtain ⟨same, done⟩ | ⟨o, found, pending, same⟩ := finalizePass_cons h c handle rest w
    · exact ih ready (covers.skips ready.sound done) (same ▸ returned)
    · obtain ⟨-, -, course, left⟩ := covers.visits follows ready found pending
      rw [same] at returned
      obtain ⟨_, u, visited, returned⟩ := of_bind_ok returned
      obtain ⟨_, v, passed, last⟩ := of_bind_ok returned
      cases last
      rw [visited] at left course
      exact ih (course.ready ready) left passed

theorem finalizeRounds_follows {h : Host (Ledger σ)} (follows : h.Follows) (c : ContextId)
    (rounds : Nat) : (finalizeRounds h c rounds).Follows (some c) := by
  induction rounds with
  | zero => exact .throw _
  | succ rounds ih =>
    refine .bind (drain_follows c) fun _ making w ready => ?_
    rw [bind_ok (context_apply w c)]
    refine .bind ready (finalizePass_course follows ready (.start ready.sound c))
      fun again w' _ later => ?_
    split
    next => exact ih making w' later
    next => exact .still w'

theorem finalize_follows {h : Host (Ledger σ)} (follows : h.Follows) (c : ContextId) :
    (finalize h c).Follows (some c) :=
  finalizeRounds_follows follows c _

theorem destruct_course {h : Host (Ledger σ)} (follows : h.Follows) {w : Recorded σ}
    {c : ContextId} (ready : w.Ready making (some c)) (object : Option ObjectId)
    (known : object.all w.objects.has)
    (running : w.embedder.running.head? = some (.act c (.destruct object))) :
    Course making w (destruct h c object w).2 := by
  cases object with
  | none => exact .still w
  | some o =>
    rw [destruct, bind_ok (objectOf_apply w o)]
    split
    next => exact .still w
    next alive =>
      have pending : (w.objects.get o).isFinalized = false := by simpa using alive
      obtain ⟨course, later⟩ :=
        runDestructor_course (u := w) follows ready known pending (.asked running) rfl
      rw [bind_ok (context_apply w c)]
      cases listed : (w.context c).tracker.handle? o with
      | none => exact course
      | some handle =>
        dsimp only
        rw [ensuring_apply]
        -- whatever the destructor has done, the handle can only stand for the object, which is marked
        have ready' := course.ready ready
        refine course.trans (.change (.reclaim _ c handle (.inr fun d found => ?_) (ready'.acts c rfl)))
        have tracker := (ready.sound.contexts c).tracker
        have tracked := tracker.handle?_iff.1 listed
        have old := tracker.below handle (Tracker.mem_handles tracked)
        have before := (course.extends.contexts c (ready.present c rfl)).2.tracker.entries _
          (Tracker.mem_of_object? found) old
        rw [tracker.unique before tracked]
        exact (later.objects o ((World.Extends.markFinalized w o).objects o known).1).2.1
          (congrArg Object.isFinalized (Pool.get_modify_self w.objects o _ known))

theorem finalizePass_idle {τ : Type} (h : Host τ) (c : ContextId) {w w' : World τ}
    {handles : List Nat} (idle : finalizePass h c handles w = (.ok false, w')) :
    w' = w ∧ ∀ handle ∈ handles, ∀ o, (w.context c).tracker.object? handle = some o →
      (w.objects.get o).isFinalized := by
  induction handles with
  | nil =>
    cases idle
    exact ⟨rfl, fun _ member => nomatch member⟩
  | cons handle rest ih =>
    obtain ⟨same, done⟩ | ⟨o, -, -, same⟩ := finalizePass_cons h c handle rest w
    · obtain ⟨kept, behind⟩ := ih (same ▸ idle)
      refine ⟨kept, fun d member o there => ?_⟩
      rcases List.mem_cons.1 member with rfl | later
      · exact done o there
      · exact behind d later o there
    · rw [same] at idle
      obtain ⟨_, _, _, rest⟩ := of_bind_ok idle
      obtain ⟨_, _, _, last⟩ := of_bind_ok rest
      cases last

theorem finalizeRounds_done {h : Host (Ledger σ)} (follows : h.Follows) {w w' : Recorded σ}
    {c : ContextId} (ready : w.Ready making (some c)) {rounds : Nat}
    (returned : finalizeRounds h c rounds w = (.ok (), w')) :
    ∀ o ∈ (w'.context c).tracker.objects, (w'.objects.get o).isFinalized := by
  induction rounds generalizing w with
  | zero => cases returned
  | succ rounds ih =>
    obtain ⟨_, v, drained, returned⟩ := of_bind_ok returned
    have ready := ((drain_follows c).course ready drained).ready ready
    rw [bind_ok (context_apply v c)] at returned
    obtain ⟨again, u, passed, returned⟩ := of_bind_ok returned
    have course := finalizePass_course follows ready (.start ready.sound c)
    rw [passed] at course
    cases again with
    | true => exact ih (course.ready ready) returned
    | false =>
      cases returned
      obtain ⟨rfl, done⟩ := finalizePass_idle h c passed
      intro o member
      obtain ⟨e, inside, rfl⟩ := List.mem_map.1 member
      have tracker := (ready.sound.contexts c).tracker
      exact done e.1 ((tracker.listed e.1).2 (Tracker.mem_handles inside)) e.2
        (tracker.object?_iff.2 inside)

end Lifecycle

end ScriptHost
