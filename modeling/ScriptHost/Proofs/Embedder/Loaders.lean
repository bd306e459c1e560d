import ScriptHost.Proofs.Embedder.Following
import ScriptHost.Proofs.Embedder.Persistence

set_option autoImplicit false

namespace ScriptHost

variable {τ σ : Type} {making : List ContextId}

namespace AutoloadChain

structure IsTidy (x : AutoloadChain) : Prop where
  keys : (x.loaders.map (·.key)).Nodup
  busy : x.busy.Nodup

theorem isTidy_empty : empty.IsTidy := ⟨List.nodup_nil, List.nodup_nil⟩

variable {x y : AutoloadChain}

theorem Becomes.busy (becomes : x.Becomes y) : y.busy = x.busy := by
  cases becomes with
  | registered a atFront => unfold register; split <;> rfl
  | _ => rfl

theorem Becomes.tidy (becomes : x.Becomes y) (tidy : x.IsTidy) : y.IsTidy := by
  refine ⟨?_, becomes.busy ▸ tidy.busy⟩
  have keys := tidy.keys
  cases becomes with
  | same | fallback => exact keys
  | registered a atFront =>
    by_cases taken : x.hasKey a.key
    next => simpa [register, taken] using keys
    next =>
      have free : a.key ∉ x.loaders.map (·.key) := by simpa [hasKey] using taken
      cases atFront <;> simp_all [register, List.nodup_append]
  | unregistered key => exact keys.sublist (List.eraseP_sublist.map _)

theorem IsTidy.enter (tidy : x.IsTidy) {key : Bytes} (free : key ∉ x.busy) :
    (x.enter key).IsTidy :=
  ⟨tidy.keys, List.nodup_cons.2 ⟨free, tidy.busy⟩⟩

theorem IsTidy.leave (tidy : x.IsTidy) (key : Bytes) : (x.leave key).IsTidy :=
  ⟨tidy.keys, tidy.busy.filter _⟩

theorem busy_leave_enter {key : Bytes} (entered : y.busy = (x.enter key).busy)
    (free : key ∉ x.busy) : (y.leave key).busy = x.busy := by
  simp only [leave, entered, enter, List.filter_cons, ne_eq, decide_not, decide_true, Bool.not_true,
    Bool.false_eq_true, if_false, List.filter_eq_self]
  rintro other member
  simpa using fun same : other = key => free (same ▸ member)

end AutoloadChain

namespace World

variable {w : World τ} {c d : ContextId}

theorem busy_updateContext (f : Context → Context)
    (same : (f (w.context c)).autoload.busy = (w.context c).autoload.busy) :
    (w.updateContext c f).busy d = w.busy d := by
  unfold busy
  rw [context_updateContext]
  split
  next here => rw [← here.1, same]
  next => rfl

theorem busy_updateLoaders (f : AutoloadChain → AutoloadChain) (there : w.contexts.has c) :
    (w.updateLoaders c f).busy c = (f (w.context c).autoload).busy := by
  rw [busy, updateLoaders, context_updateContext, if_pos ⟨rfl, there⟩]

theorem busy_updateLoaders_of_ne (f : AutoloadChain → AutoloadChain) (apart : c ≠ d) :
    (w.updateLoaders c f).busy d = w.busy d := by
  rw [busy, updateLoaders, context_updateContext, if_neg fun same => apart same.1, busy]

theorem busy_popFrame : (w.popFrame c).busy d = w.busy d := by
  unfold World.popFrame
  split
  next => rfl
  next => exact busy_updateContext _ rfl

theorem busy_leaveHook {w : Recorded σ} {lower : Bytes} {hook : Callback}
    {outcome : Except Signal (Option Failure)} :
    (w.leaveHook c lower hook outcome).busy d = w.busy d := by
  unfold World.leaveHook
  split
  next => exact busy_updateContext (w := w.note _) _ rfl
  next => rfl

theorem busy_enlist (w : World τ) {s : ScopeId} {sink : SinkId} (d : ContextId) :
    (w.enlist s sink).busy d = w.busy d := by
  show ((w.contexts.add (w.newcomer s sink)).get d).autoload.busy = (w.contexts.get d).autoload.busy
  by_cases here : d = w.contexts.next
  next =>
    subst here
    have unknown : ¬ w.contexts.has w.contexts.next := fun known => Pool.ne_next_of_has _ known rfl
    rw [Pool.get_add_next, Pool.get_of_not_has _ unknown]
    rfl
  next => rw [Pool.get_add, if_neg here]

def IsTidy (w : World τ) : Prop := ∀ c, (w.context c).autoload.IsTidy

theorem IsTidy.updateContext (tidy : w.IsTidy) {f : Context → Context}
    (keeps : (f (w.context c)).autoload.IsTidy) : (w.updateContext c f).IsTidy := by
  intro d
  rw [context_updateContext]
  split
  next here => exact here.1 ▸ keeps
  next => exact tidy d

theorem IsTidy.popFrame (tidy : w.IsTidy) : (w.popFrame c).IsTidy := by
  unfold World.popFrame
  split
  next => exact tidy
  next => exact tidy.updateContext (tidy c)

theorem IsTidy.leaveHook {w : Recorded σ} (tidy : w.IsTidy) {lower : Bytes}
    {hook : Callback} {outcome : Except Signal (Option Failure)} :
    (w.leaveHook c lower hook outcome).IsTidy := by
  have noted : (w.note (.answered (.enterClass hook c) outcome)).IsTidy := tidy
  unfold World.leaveHook
  split
  next => exact noted.updateContext (tidy c)
  next => exact noted

theorem IsTidy.enlist (tidy : w.IsTidy) (s : ScopeId) (sink : SinkId) :
    (w.enlist s sink).IsTidy := by
  intro d
  show ((w.contexts.add (w.newcomer s sink)).get d).autoload.IsTidy
  rw [Pool.get_add]
  split
  next => exact AutoloadChain.isTidy_empty
  next => exact tidy d

theorem start_isTidy (files : FileTree) (own : σ) : (World.start files own).IsTidy :=
  fun _ => AutoloadChain.isTidy_empty

end World

theorem Event.wanted?_of_loaded (event : Event) {source : ContextId × Source × ModuleId}
    (loaded : event.loaded = some source) : event.wanted? = none := by
  unfold Event.loaded at loaded
  split at loaded <;> first | rfl | cases loaded

theorem Change.busy {w w' : Recorded σ} (step : Change making w w') (d : ContextId) :
    w'.busy d = w.busy d := by
  cases step with
  | popCall c => exact World.busy_popFrame
  | adjust c f adjusts =>
    exact World.busy_updateContext _ (adjusts (w.context c)).autoload.busy
  | close c => exact World.busy_updateContext (w := w) (fun x => { x with isClosed := true }) rfl
  | pushCall | assign | remember | loadClass | cacheFunction | insertFunction | mergeFunctions
  | cacheConstant | insertConstant | inherit | reclaim | drain | track =>
    exact World.busy_updateContext _ rfl
  | _ => rfl

theorem Course.busy {w w' : Recorded σ} (course : Course making w w') (d : ContextId) :
    w'.busy d = w.busy d := by
  induction course with
  | still => rfl
  | change step => exact step.busy d
  | trans _ _ first rest => exact rest.trans first
  | operation _ _ _ _ _ ih => exact ih
  | frame c f _ _ ih =>
    exact World.busy_popFrame.trans (ih.trans (World.busy_updateContext _ rfl))
  | @autoload _ w w' c key there free inner _ ih =>
    -- what is loaded is put on top of what the context was loading and taken off again; other
    -- contexts are not touched
    by_cases here : c = d
    next =>
      subst here
      have there' : w'.contexts.has c := by
        have entered := ((w.extends_updateLoaders c (·.enter key)).contexts c there).1
        exact (inner.extends.contexts c entered).1
      rw [World.busy_updateLoaders _ there] at ih
      rw [World.busy_updateLoaders _ there']
      exact AutoloadChain.busy_leave_enter ih free
    next =>
      rw [World.busy_updateLoaders_of_ne _ here, ih, World.busy_updateLoaders_of_ne _ here]
  | @destructor _ w _ _ c o k f _ known _ retires _ calls ih =>
    have given := retires.elim (P := fun v => v.busy d = w.busy d) known calls.acts rfl (·.busy d)
    exact World.busy_popFrame.trans (ih.trans ((World.busy_updateContext _ rfl).trans given))
  | hook c k k' _ _ _ _ outcome _ _ _ ih =>
    exact World.busy_leaveHook.trans (ih.trans (World.busy_updateContext _ rfl))
  | registration c m _ _ _ _ ih => exact (World.busy_updateContext _ rfl).trans ih
  | attempt _ _ _ _ ih => exact ih
  | @loading _ w u v w' c source _ _ _ _ event m _ _ ended before after =>
    have kept : w'.busy d = v.busy d := by
      rw [World.busy, World.context, ended.contexts, World.busy, World.context]
    exact kept.trans (after.trans before)
  | @creation w _ s sink _ _ _ ih => exact ih.trans (w.busy_enlist d)

theorem Change.tidy {w w' : Recorded σ} (step : Change making w w') (tidy : w.IsTidy) :
    w'.IsTidy := by
  cases step with
  | popCall c => exact tidy.popFrame
  | adjust c f adjusts =>
    exact tidy.updateContext ((adjusts (w.context c)).autoload.tidy (tidy c))
  | close c => exact tidy.updateContext (f := fun x => { x with isClosed := true }) (tidy c)
  | pushCall c | assign c | remember c | loadClass c | cacheFunction c | insertFunction c
  | mergeFunctions c | cacheConstant c | insertConstant c | inherit c | reclaim c | drain c
  | track c => exact tidy.updateContext (tidy c)
  | _ => exact tidy

theorem Host.Follows.answer_due {h : Host (Ledger σ)} (follows : h.Follows)
    {home : Option ContextId} (call : Call) {c : ContextId} {name : Bytes}
    (wanted : call.wanted? = some (c, name)) {w : Recorded σ}
    (first : (w.busy c).head? = some name.lower) (ready : w.Ready making home) :
    Course making w (h.answer call w).2 := by
  have called : (Event.called call).isPlain := by cases call <;> first | rfl | cases wanted
  obtain ⟨outcome, v, same, course⟩ := follows.answered call called (.of_wanted wanted first) ready
  have ended : (Event.answered call outcome).isPlain := by
    cases call <;> first | rfl | cases wanted
  rw [same]
  exact course.trans (.change (.note v _ ended (.of_wanted wanted (by rwa [course.busy]))))

structure Moment.IsTimely (base : ContextId → List Bytes) (m : Moment σ) : Prop where
  tidy : m.world.IsTidy
  due : m.world.IsDue m.event
  stays : ∀ c, base c <:+ m.world.busy c

theorem Moment.IsTimely.of_unwanted {base : ContextId → List Bytes} {w : Recorded σ}
    (tidy : w.IsTidy) (stays : ∀ c, base c <:+ w.busy c) {event : Event}
    (unwanted : event.wanted? = none) {running : List Operation} :
    Moment.IsTimely base ⟨event, running, w.unrecorded⟩ :=
  ⟨tidy, .of_unwanted unwanted, stays⟩

theorem Course.timely {w w' : Recorded σ} (course : Course making w w')
    {base : ContextId → List Bytes} (tidy : w.IsTidy) (stays : ∀ c, base c <:+ w.busy c) :
    w'.IsTidy ∧ w.Adds (Moment.IsTimely base) w' := by
  have still {u v : Recorded σ} (same : ∀ c, v.busy c = u.busy c) (stays : ∀ c, base c <:+ u.busy c) :
      ∀ c, base c <:+ v.busy c := fun c => same c ▸ stays c
  induction course with
  | still => exact ⟨tidy, .of_same rfl⟩
  | change step => exact ⟨step.tidy tidy, step.adds fun _ _ due => ⟨tidy, due, stays⟩⟩
  | trans first _ ih ih' =>
    obtain ⟨between, early⟩ := ih tidy stays
    obtain ⟨ended, late⟩ := ih' between (still first.busy stays)
    exact ⟨ended, early.trans late⟩
  | operation o outcome inner _ _ ih =>
    obtain ⟨ended, within⟩ := ih tidy stays
    exact ⟨ended, World.Adds.finish within (.of_unwanted ended (still inner.busy stays) rfl)⟩
  | frame c f _ _ ih =>
    obtain ⟨ended, within⟩ := ih (tidy.updateContext (tidy c))
      (still (fun _ => World.busy_updateContext _ rfl) stays)
    exact ⟨ended.popFrame, World.Adds.popFrame within c⟩
  | @autoload _ w w' c key there free _ _ ih =>
    -- the name that is being loaded is put before the others, so what was being loaded stays a
    -- suffix
    obtain ⟨ended, within⟩ := ih (tidy.updateContext ((tidy c).enter free)) fun d => by
      by_cases here : c = d
      next =>
        subst here
        rw [World.busy_updateLoaders _ there]
        exact (stays c).trans (List.suffix_cons key _)
      next => exact World.busy_updateLoaders_of_ne (w := w) _ here ▸ stays d
    exact ⟨ended.updateContext ((ended c).leave key), within.trans (.of_same rfl)⟩
  | @destructor _ w v w' c o k f _ known _ retires _ calls ih =>
    have given : v.IsTidy := retires.elim known calls.acts tidy (·.tidy tidy)
    have pushed : (v.pushFrame c f).IsTidy := given.updateContext (given c)
    have stays' : ∀ d, base d <:+ v.busy d :=
      retires.elim (P := fun v => ∀ d, base d <:+ v.busy d) known calls.acts stays
        fun step => still step.busy stays
    have busy : ∀ d, base d <:+ (v.pushFrame c f).busy d :=
      still (fun _ => World.busy_updateContext _ rfl) stays'
    obtain ⟨ended, within⟩ := ih pushed busy
    exact ⟨ended.popFrame, (World.Adds.of_event (v := v.pushFrame c f) retires.embedder
      (.of_unwanted pushed busy rfl) within).popFrame c⟩
  | @hook _ w w' c k k' _ _ _ _ outcome inner _ _ ih =>
    have inserted : (w.insertClass c k).IsTidy := tidy.updateContext (tidy c)
    have busy : ∀ d, base d <:+ (w.insertClass c k).busy d :=
      still (fun _ => World.busy_updateContext _ rfl) stays
    obtain ⟨ended, within⟩ := ih inserted busy
    exact ⟨ended.leaveHook, (World.Adds.of_event rfl (.of_unwanted inserted busy rfl)
      within).leaveHook (.of_unwanted ended (still inner.busy busy) rfl)⟩
  | registration c m _ _ _ _ ih =>
    obtain ⟨ended, within⟩ := ih tidy stays
    exact ⟨ended.updateContext (ended c), within.trans (.of_same rfl)⟩
  | attempt _ _ _ _ ih => exact ih tidy stays
  | @loading _ w u v w' c source _ _ _ before event m loaded _ ended ih ih' =>
    -- the event that ends a loading is not one of a class loader
    have unwanted : event.wanted? = none := event.wanted?_of_loaded loaded
    have busy : ∀ d, base d <:+ u.busy d := still before.busy stays
    obtain ⟨locked, early⟩ := ih tidy stays
    obtain ⟨kept, late⟩ := ih' locked busy
    have begun : w.Adds (Moment.IsTimely base) u := early
    have answered := World.Adds.of_event rfl (.of_unwanted locked busy unwanted) late
    refine ⟨fun d => ?_,
      begun.trans (answered.trans (.of_same (congrArg Ledger.journal ended.embedder)))⟩
    show (w'.contexts.get d).autoload.IsTidy
    rw [ended.contexts]
    exact kept d
  | @creation w _ s sink _ _ _ ih => exact ih (tidy.enlist s sink) (still w.busy_enlist stays)

end ScriptHost
