import ScriptHost.Proofs.Embedder.Invariants
import ScriptHost.Proofs.Embedder.Requests
import ScriptHost.Proofs.Output.Route

set_option autoImplicit false

namespace ScriptHost

variable {σ τ : Type} {making : List ContextId}

namespace Output

/-- What stands on the stack, or has stood there, exists. A buffer drains into an older one, and then
takes the way of that one. -/
structure IsPlumbed (o : Output) : Prop where
  known : ∀ b ∈ o.stack ++ o.vacated, o.buffers.has b
  ways : ∀ b d rest, (o.buffer b).below = d :: rest →
    o.buffers.has d ∧ d.index < b.index ∧ (o.buffer d).below = rest

variable {o p : Output}

theorem isPlumbed_make (sink : SinkId) : (make sink).IsPlumbed :=
  ⟨List.forall_mem_nil _, fun _ _ _ way => nomatch way⟩

theorem IsPlumbed.mono (plumbed : o.IsPlumbed) (precedes : o.Precedes p)
    (stack : ∀ b ∈ p.stack ++ p.vacated, b ∈ o.stack ++ o.vacated)
    (below : ∀ b, (p.buffer b).below = (o.buffer b).below) : p.IsPlumbed := by
  refine ⟨fun b member => precedes.has (plumbed.known b (stack b member)), fun b d rest way => ?_⟩
  rw [below] at way ⊢
  obtain ⟨there, older, onward⟩ := plumbed.ways b d rest way
  exact ⟨precedes.has there, older, onward⟩

theorem IsPlumbed.apart (plumbed : o.IsPlumbed) (b : BufferId) : b ∉ (o.buffer b).below := by
  have older : ∀ d ∈ (o.buffer b).below, d.index < b.index := by
    generalize way : (o.buffer b).below = below
    induction below generalizing b with
    | nil => exact List.forall_mem_nil _
    | cons d rest ih =>
      obtain ⟨-, first, onward⟩ := plumbed.ways b d rest way
      exact List.forall_mem_cons.2 ⟨first, fun e member =>
        Nat.lt_trans (ih d onward e member) first⟩
  exact fun inside => Nat.lt_irrefl _ (older b inside)

theorem buffer_push_of_has {b : BufferId} (there : o.buffers.has b) (handler : Option Callback)
    (chunkSize : Int) (isErasable : Bool) :
    (o.push handler chunkSize isErasable).buffer b = o.buffer b :=
  Pool.get_add_of_has _ _ there

theorem IsPlumbed.push (plumbed : o.IsPlumbed) (handler : Option Callback) (chunkSize : Int)
    (isErasable : Bool) : (o.push handler chunkSize isErasable).IsPlumbed := by
  have kept {b : BufferId} (there : o.buffers.has b) :=
    buffer_push_of_has there handler chunkSize isErasable
  constructor
  · intro b member
    rcases List.mem_append.1 member with inside | outside
    · rcases List.mem_cons.1 inside with rfl | inside
      · exact Pool.has_next_add ..
      · exact Pool.has_add _ _ _ (plumbed.known b (List.mem_append_left _ inside))
    · have inside := List.mem_of_mem_drop outside
      exact Pool.has_add _ _ _ (plumbed.known b (List.mem_append_right _ inside))
  · intro b d rest way
    by_cases new : b = o.buffers.next
    · subst new
      have way : o.route o.top = d :: rest :=
        (congrArg Buffer.below (Pool.get_add_next ..)).symm.trans way
      unfold top at way
      split at way
      next => cases way
      next p _ stack =>
        -- the way of the new buffer is that of the one below it, which stands on the stack
        cases way
        have there : o.buffers.has d := plumbed.known d (by simp [stack])
        exact ⟨Pool.has_add _ _ _ there, (Pool.has_iff _ _).1 there, by rw [kept there]⟩
    · have own : (o.push handler chunkSize isErasable).buffer b = o.buffer b :=
        (Pool.get_add ..).trans (if_neg new)
      rw [own] at way
      obtain ⟨there, older, same⟩ := plumbed.ways b d rest way
      exact ⟨Pool.has_add _ _ _ there, older, by rw [kept there, same]⟩

theorem mem_resize {count : Nat} {b : BufferId}
    (member : b ∈ (o.resize count).stack ++ (o.resize count).vacated) :
    b ∈ o.stack ++ o.vacated := by
  simp only [resize, List.mem_append, List.mem_reverse] at member ⊢
  rcases member with (inside | inside) | inside | inside
  · exact .inr (List.mem_of_mem_take inside)
  · exact .inl (List.mem_of_mem_drop inside)
  · exact .inl (List.mem_of_mem_take inside)
  · exact .inr (List.mem_of_mem_drop inside)

theorem Becomes.plumbed (becomes : o.Becomes p) (plumbed : o.IsPlumbed) : p.IsPlumbed := by
  have precedes := Precedes.of_becomes becomes
  cases becomes with
  | same => exact plumbed
  | started handler chunkSize isErasable => exact plumbed.push handler chunkSize isErasable
  | used b f _ pristine =>
    exact plumbed.mono precedes (fun _ => id) fun d =>
      o.buffers.modify_keeps b d f Buffer.below fun x => (congrArg Buffer.below (pristine x) :)
  | resized count => exact plumbed.mono precedes (fun _ => mem_resize) fun _ => rfl
  | rootClosed => exact plumbed.mono precedes (fun _ => id) fun _ => rfl

end Output

namespace World

variable {w : World τ} {c : ContextId}

def IsPlumbed (w : World τ) : Prop := ∀ c, (w.output c).IsPlumbed

theorem IsPlumbed.updateContext (plumbed : w.IsPlumbed) {f : Context → Context}
    (keeps : (f (w.context c)).output.IsPlumbed) : (w.updateContext c f).IsPlumbed := by
  intro d
  rw [output, context_updateContext]
  split
  next here => exact here.1 ▸ keeps
  next => exact plumbed d

theorem IsPlumbed.popFrame (plumbed : w.IsPlumbed) : (w.popFrame c).IsPlumbed := by
  unfold World.popFrame
  split
  next => exact plumbed
  next => exact plumbed.updateContext (plumbed c)

theorem IsPlumbed.enlist (plumbed : w.IsPlumbed) (s : ScopeId) (sink : SinkId) :
    (w.enlist s sink).IsPlumbed := by
  intro d
  show ((w.contexts.add (w.newcomer s sink)).get d).output.IsPlumbed
  rw [Pool.get_add]
  split
  next => exact Output.isPlumbed_make sink
  next => exact plumbed d

theorem start_isPlumbed (files : FileTree) (own : σ) : (World.start files own).IsPlumbed :=
  fun _ => Output.isPlumbed_make _

end World

theorem Change.plumbed {w w' : Recorded σ} (step : Change making w w') (plumbed : w.IsPlumbed) :
    w'.IsPlumbed := by
  cases step with
  | popCall c => exact plumbed.popFrame
  | adjust c f adjusts =>
    exact plumbed.updateContext ((adjusts (w.context c)).output.plumbed (plumbed c))
  | close c => exact plumbed.updateContext (f := fun x => { x with isClosed := true }) (plumbed c)
  | pushCall c | assign c | remember c | loadClass c | cacheFunction c | insertFunction c
  | mergeFunctions c | cacheConstant c | insertConstant c | inherit c | reclaim c | drain c
  | track c => exact plumbed.updateContext (plumbed c)
  | _ => exact plumbed

theorem World.plumbed_invariant : World.IsInvariant (World.IsPlumbed (τ := σ)) where
  change step plumbed := step.plumbed plumbed
  pushFrame c _ _ plumbed := plumbed.updateContext (plumbed c)
  popFrame _ plumbed := plumbed.popFrame
  updateLoaders c _ plumbed := plumbed.updateContext (plumbed c)
  markFinalized _ plumbed := plumbed
  insertClass c _ _ plumbed := plumbed.updateContext (plumbed c)
  eraseClass c _ plumbed := plumbed.updateContext (plumbed c)
  recordModule c _ plumbed := plumbed.updateContext (plumbed c)
  setImporting _ _ plumbed := plumbed
  conclude s source m plumbed c := by
    rw [World.output, World.context, World.conclude_contexts]
    exact plumbed c
  enlist sink _ plumbed := plumbed.enlist _ sink

theorem Course.plumbed {w w' : Recorded σ} (course : Course making w w') (plumbed : w.IsPlumbed) :
    w'.IsPlumbed ∧ w.Adds (·.world.IsPlumbed) w' :=
  course.throughout World.plumbed_invariant plumbed

theorem Script.plumbed {ρ : Type} (s : Script σ) (depth : Nat) (code : Code σ ρ) (files : FileTree)
    (own : σ) : (code.run (s.host depth) (.start files own)).2.IsPlumbed ∧
      ∀ m ∈ s.journal depth code files own, m.world.IsPlumbed := by
  obtain ⟨ended, new, journal, each⟩ :=
    (s.course depth code files own).plumbed (World.start_isPlumbed files own)
  exact ⟨ended, fun m member => each m (by rwa [Script.journal, journal] at member)⟩

end ScriptHost
