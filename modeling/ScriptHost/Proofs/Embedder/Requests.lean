import ScriptHost.Proofs.Embedder.Contexts

set_option autoImplicit false

namespace ScriptHost

open Run

variable {σ : Type} {making : List ContextId} {home : Option ContextId}

theorem Action.perform_course {h : Host (Ledger σ)} (follows : h.Follows) {w : Recorded σ}
    {c : ContextId} (ready : w.Ready making (some c)) (a : Action) (grounded : a.isGrounded w)
    (running : w.embedder.running.head? = some (.act c a)) :
    Course making w (a.perform h c w).2 := by
  have course {α : Type} {m : Run (Ledger σ) α} (inner : m.Follows (some c)) :
      Course making w (m w).2 :=
    inner making w ready
  cases a with
  | final => exact course (Execution.final_follows follows c)
  | close => exact Execution.close_course (ready.present c rfl) running
  | shutdown => exact Execution.shutdown_course follows ready running
  | onShutdown k => exact course (Execution.onShutdown_follows c k)
  | setGlobal name v => exact course (Variables.setGlobal_follows c name v)
  | static name initial => exact course (Variables.static_follows c name initial)
  | setStatic name v => exact course (Variables.setStatic_follows c name v)
  | attach key v => exact course (Variables.attach_follows c key v)
  | detach key => exact course (Variables.detach_follows c key)
  | runShell command => exact course (Variables.runShell_follows follows c command)
  | pushCall f =>
    exact Calls.push_course running rfl fun o self => by
      rw [Action.isGrounded, self] at grounded
      exact grounded
  | pushMethod trace self method args =>
    exact Calls.pushMethod_course running rfl trace self method args
  | popCall => exact Calls.pop_course running rfl
  | setArgument distance index v => exact Calls.setArgument_course running rfl distance index v
  | staticClass => exact course (LateBinding.staticClass_follows follows c)
  | currentClass => exact course (LateBinding.currentClass_follows follows c)
  | magicClass name => exact course (LateBinding.magicClass_follows follows c name)
  | nearestClass => exact course (LateBinding.nearestClass_follows follows c)
  | parentClass trace => exact course (LateBinding.parentClass_follows follows c trace)
  | parentOf trace name => exact course (LateBinding.parentOf_follows follows c trace name)
  | raise severity trace template args =>
    exact course (Diagnostics.raise_follows follows c severity trace template args)
  | trigger m => exact course (Diagnostics.trigger_follows follows c m)
  | setDiagnostics f => exact course (modifyDiagnostics_follows c f)
  | throwException e => exact course (Exceptions.throwException_follows c e)
  | throwNamed trace name template args =>
    exact course (Exceptions.throwNamed_follows follows c trace name template args)
  | throwValue trace v => exact course (Exceptions.throwValue_follows follows c trace v)
  | die v => exact course (Exceptions.die_follows follows c v)
  | catchUncaught f => exact course (Boundary.catchUncaught_follows follows c f)
  | catchSignal signal => exact course (Boundary.catchSignal_follows follows c signal)
  | track object => exact course (Lifecycle.track_follows c object)
  | create trace name args => exact course (Lifecycle.create_follows follows c trace name args)
  | destruct object => exact Lifecycle.destruct_course follows ready object grounded running
  | finalize => exact course (Lifecycle.finalize_follows follows c)
  | pending => exact course (Lifecycle.pending_follows c)
  | reclaim handle => exact .change (.reclaim w c handle (.inl running) (ready.acts c rfl))
  | findClass name => exact course (ClassRegistry.find_follows follows c name)
  | fetchClass name => exact course (ClassRegistry.fetch_follows follows c name)
  | registerClass k => exact ClassRegistry.register_course follows ready grounded
  | addLoader a atFront => exact course (ClassRegistry.addLoader_follows c a atFront)
  | removeLoader key => exact course (ClassRegistry.removeLoader_follows c key)
  | setFallback a => exact course (modifyAutoload_follows c _ fun _ => .fallback a)
  | fetchFunction name => exact course (FunctionRegistry.fetch_follows c name)
  | registerFunction f => exact FunctionRegistry.register_course follows ready grounded
  | allFunctions => exact course (FunctionRegistry.all_follows c)
  | findConstant name => exact course (ConstantRegistry.find_follows c name)
  | fetchConstant name => exact course (ConstantRegistry.fetch_follows c name)
  | constantOrName name trace =>
    exact course (ConstantRegistry.fetchOrName_follows follows c name trace)
  | defineConstant name value isCaseSensitive =>
    exact course (ConstantRegistry.define_follows follows c name value isCaseSensitive)
  | registerConstant k => exact ConstantRegistry.register_course follows ready grounded
  | importSource source => exact (Modules.importSource_course follows ready source).1
  | registerModule m => exact Modules.register_course follows ready (.inl running)
  | runModule m table => exact course (Modules.run_follows follows c m table)
  | defineFunction trace index number =>
    exact course (Modules.defineFunction_follows follows c trace index number)
  | includeFile kind path table trace =>
    exact course (Include.run_follows follows c kind path table trace)
  | echo v => exact course (Output.echo_follows follows c v)
  | echoBytes text => exact course (Output.echoBytes_follows follows c text)
  | write text => exact course (Output.write_follows follows c text)
  | writeTo level text => exact course (Output.writeTo_follows follows c level text)
  | startBuffer handler chunkSize isErasable =>
    exact course (Output.start_follows c handler chunkSize isErasable)
  | stopBuffer => exact course (Output.stop_follows follows c)
  | discardBuffer => exact course (Output.discard_follows follows c)
  | flush level => exact course (Output.flush_follows follows c level)
  | clean level => exact course (Output.clean_follows follows c level)
  | closeLevel level => exact course (Output.close_follows follows c level)
  | flushAll => exact course (Output.flushAll_follows follows c)
  | setSetting key v => exact course (Settings.set_follows follows c key v)
  | restoreSetting key => exact course (Settings.restore_follows follows c key)
  | addSearchPath directory => exact course (Settings.addSearchPath_follows c directory)
  | setSearchPath directories => exact course (Settings.setSearchPath_follows c directories)

theorem Action.perform_delivers {h : Host (Ledger σ)} (follows : h.Follows) {w : Recorded σ}
    {c : ContextId} (ready : w.Ready making (some c)) (a : Action) :
    Operation.Delivers w (.act c a) (a.perform h c w).1 (a.perform h c w).2 := by
  cases a with
  | track object =>
    cases object with
    | none => trivial
    | some o =>
      exact fun handle returned =>
        Lifecycle.track_adds (ready.present c rfl) (Prod.ext returned rfl)
  | finalize =>
    intro returned
    exact Lifecycle.finalizeRounds_done follows ready (Prod.ext returned rfl)
  | findClass name => exact ClassRegistry.find_answers follows ready rfl
  | fetchClass name => exact fun single => ClassRegistry.fetch_answers follows ready single rfl
  | fetchFunction name => exact FunctionRegistry.fetch_answers (ready.present c rfl) rfl
  | findConstant name => exact ConstantRegistry.find_answers ready.sound (ready.present c rfl) rfl
  | importSource source => exact (Modules.importSource_course follows ready source).2
  | _ => trivial

namespace Operation

variable {h : Host (Ledger σ)} (follows : h.Follows)
include follows

theorem perform_course {w : Recorded σ} (ready : w.Ready [] none) (o : Operation)
    (grounded : o.isGrounded w) (running : w.embedder.running.head? = some o) :
    Course [] w (o.perform h w).2 := by
  have course {α : Type} {m : Run (Ledger σ) α} (inner : m.Follows none) : Course [] w (m w).2 :=
    inner [] w ready
  cases o with
  | act c a =>
    obtain ⟨there, grounded⟩ := Bool.and_eq_true_iff.1 grounded
    exact a.perform_course follows (ready.at there (.inr ⟨a, running⟩)) grounded running
  | newAllocator =>
    exact .change (.surroundings w _ _ _ _ _ _ _ _ .same .added)
  | acquire a => exact .change (.surroundings w _ _ _ _ _ _ _ _ .same (.taken a running))
  | release a id => exact .change (.surroundings w _ _ _ _ _ _ _ _ .same (.given a id running))
  | newTable t => exact course (newTable_follows t)
  | modifyTable t f => exact .change (.surroundings w _ _ _ _ _ _ _ _ (.asked t f running) .same)
  | newSink s => exact .change (.surroundings w _ _ (w.sinks.add s) _ _ _ _ _ .same .same)
  | modifySink s f => exact course (modifySink_follows s f)
  | changeFiles f => exact course (Connection.modifyFiles_follows fun w => f w.files)
  | newClass k => exact .change (.addClass w k)
  | newFunction f => exact .change (.addFunction w f)
  | newConstant k => exact .change (.addConstant w k)
  | newModule m => exact .change (.addModule w m grounded)
  | newObject o => exact .change (.addObject w o)
  | addMethod k m => exact .change (.addMethod w k m running)
  | markFinalized o => exact .change (.markFinalized w o (.inl running))
  | newScope s => exact .change (.addScope w s grounded)
  | setDefault s key v => exact course (ScopeRegistry.setDefault_follows s key v)
  | declareClass s k =>
    exact ScopeRegistry.declareClass_course ready (Bool.and_eq_true_iff.1 grounded).2 running
  | declareFunction s f =>
    exact ScopeRegistry.declareFunction_course ready (Bool.and_eq_true_iff.1 grounded).2 running
  | declareConstant s k =>
    exact ScopeRegistry.declareConstant_course s (Bool.and_eq_true_iff.1 grounded).2
  | newContext s sink options =>
    obtain ⟨known, _⟩ := Bool.and_eq_true_iff.1 grounded
    exact (Execution.create_course follows ready known sink options running).1
  | newChild parent options =>
    exact (Execution.createChild_course follows ready grounded options running).1
  | observe key k => exact course (Settings.observe_follows key k)
  | openStore name now => exact course (Connection.connect_follows name now)
  | savePayload s name sourceDigest payload => exact course (Connection.changing_follows s _ _)
  | saveRow s name row => exact course (Connection.changing_follows s _ _)
  | fetchPayload s name sourceDigest => exact course (Connection.reading_follows s _ _)
  | deletePayload s name => exact course (Connection.changing_follows s _ _)
  | purgeStore s => exact course (Connection.changing_follows s _ _)
  | listStore s => exact course (Connection.reading_follows s _ _)
  | closeStore s => exact course (Connection.close_follows s)

theorem perform_delivers {w : Recorded σ} (ready : w.Ready [] none) (o : Operation)
    (grounded : o.isGrounded w) (running : w.embedder.running.head? = some o) :
    o.Delivers w (o.perform h w).1 (o.perform h w).2 := by
  cases o with
  | act c a =>
    obtain ⟨there, _⟩ := Bool.and_eq_true_iff.1 grounded
    exact a.perform_delivers follows (ready.at there (.inr ⟨a, running⟩))
  | newContext s sink options =>
    obtain ⟨known, _⟩ := Bool.and_eq_true_iff.1 grounded
    exact (Execution.create_course follows ready known sink options running).2
  | newChild parent options =>
    exact (Execution.createChild_course follows ready grounded options running).2
  | declareClass s k => exact ScopeRegistry.declareClass_apart s k w
  | declareFunction s f => exact ScopeRegistry.declareFunction_apart s f w
  | _ => trivial

omit follows in
theorem delivers_error (o : Operation) (signal : Signal) (w : Recorded σ) :
    o.Delivers w (.error signal) w := by
  cases o with
  | act c a =>
    cases a with
    | findClass | fetchFunction | findConstant => exact ⟨nofun, nofun, nofun⟩
    | fetchClass => exact fun _ => ⟨nofun, nofun, nofun⟩
    | track object => cases object <;> first | trivial | nofun
    | finalize | importSource => nofun
    | _ => trivial
  | newContext | newChild => nofun
  | declareClass | declareFunction => exact ⟨rfl, rfl⟩
  | _ => trivial

theorem request_within {w : Recorded σ} (ready : w.Ready making home) (o : Operation) :
    Course [] (w.begin o) (o.request h (w.begin o)).2 := by
  have begun := (ready.sound.begin o).ready
  unfold request
  split
  next grounded => exact perform_course follows begun o grounded rfl
  next => exact .still _

theorem request_delivers {w : Recorded σ} (ready : w.Ready making home) (o : Operation) :
    o.Delivers (w.begin o) (o.request h (w.begin o)).1 (o.request h (w.begin o)).2 := by
  have begun := (ready.sound.begin o).ready
  unfold request
  split
  next grounded => exact perform_delivers follows begun o grounded rfl
  next => exact delivers_error o _ _

theorem request_course (scripted : h.IsScripted) {w : Recorded σ} (ready : w.Ready making home)
    (sampled : w.IsSampled) (o : Operation) :
    Course making w ((o.request h (w.begin o)).2.finish w.embedder.running o
      (o.request h (w.begin o)).1) :=
  .operation o _ (request_within follows ready o) (request_delivers follows ready o)
    ⟨sampled, h, scripted, rfl⟩

end Operation

theorem World.isSampled_note (w : Recorded σ) (event : Event) : (w.note event).IsSampled :=
  .inr ⟨_, _, rfl, rfl, w.embedder.own, rfl⟩

theorem World.IsSampled.setOwn {w : Recorded σ} (sampled : w.IsSampled) (own : σ) :
    (w.setOwn own).IsSampled := by
  rcases sampled with empty | ⟨before, m, journal, running, own', same⟩
  · exact .inl empty
  · refine .inr ⟨before, m, journal, running, own, ?_⟩
    exact congrArg (fun v : World σ => { v with embedder := own }) same

theorem Code.run_course {ρ : Type} {h : Host (Ledger σ)} (follows : h.Follows)
    (scripted : h.IsScripted) (code : Code σ ρ) {w : Recorded σ} (ready : w.Ready making home)
    (sampled : w.IsSampled) : Course making w (code.run h w).2 := by
  induction code generalizing w with
  | done outcome => exact .still w
  | look next ih => exact ih w.unrecorded ready sampled
  | setOwn own next ih =>
    have step : Course making _ _ := .change (.setOwn w own)
    exact step.trans (ih (step.ready ready) (sampled.setOwn own))
  | ask o next ih =>
    have asked := Operation.request_course follows scripted ready sampled o
    exact asked.trans (ih _ (asked.ready ready) (World.isSampled_note _ _))

theorem Script.host_follows (s : Script σ) (depth : Nat) : (s.host depth).Follows := by
  induction depth with
  | zero => exact fun call => ⟨Run.exhausted, fun _ _ _ _ => .still _, Host.answer_ofCalls ..⟩
  | succ depth ih =>
    refine fun call => ⟨_, fun making home w ready => ?_, Host.answer_ofCalls ..⟩
    exact (s.code call).run_course ih (s.host_scripted depth) (ready.note _) (w.isSampled_note _)

theorem Host.IsScripted.follows {h : Host (Ledger σ)} (scripted : h.IsScripted) : h.Follows := by
  obtain ⟨s, depth, rfl⟩ := scripted
  exact s.host_follows depth

theorem Script.course {ρ : Type} (s : Script σ) (depth : Nat) (code : Code σ ρ) (files : FileTree)
    (own : σ) :
    Course [] (World.start files own) (code.run (s.host depth) (.start files own)).2 :=
  code.run_course (s.host_follows depth) (s.host_scripted depth)
    (World.start_sound files own).ready (.inl fun _ => nofun)

def compilingContext : List Operation :=
  [.newAllocator, .newScope { ids := ⟨0⟩, compiler := some ⟨⟨0⟩, false⟩ }, .newSink {},
    .newContext ⟨0⟩ ⟨0⟩ {}]

end ScriptHost
