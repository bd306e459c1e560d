import ScriptHost.Proofs.Lifecycle.Destruction
import ScriptHost.Proofs.Modules.Including

set_option autoImplicit false

namespace ScriptHost

open Run

variable {σ τ : Type} {making : List ContextId}

namespace Path

theorem resolve_ne_nil (rooted : Bool) (position parts : List Bytes)
    (named : ∀ p ∈ position ++ parts, p ≠ []) : ∀ p ∈ resolve rooted position parts, p ≠ [] := by
  fun_induction resolve rooted position parts with
  | case1 position => simpa using named
  | case2 rest ih =>
    refine ih fun p member => ?_
    rcases List.mem_append.1 member with climbs | later
    · split at climbs
      next => cases climbs
      next => exact List.mem_singleton.1 climbs ▸ (by decide : up ≠ [])
    · exact named p (List.mem_cons_of_mem _ later)
  | case3 rest before ih =>
    refine ih fun p member => ?_
    rcases List.mem_cons.1 member with rfl | other
    · decide
    · exact named p (by grind)
  | case4 rest last before _ ih => exact ih fun p member => named p (by grind)
  | case5 position c rest _ ih => exact ih fun p member => named p (by grind)

theorem clean_ne_nil (path : Bytes) : clean path ≠ [] := by
  unfold clean render
  dsimp only
  split
  next => exact List.cons_ne_nil _ _
  next =>
    have named := resolve_ne_nil (isAbsolute path) [] (components path) fun p member => by
      have kept := (List.mem_filter.1 member).2
      simp_all
    generalize resolve (isAbsolute path) [] (components path) = parts at named
    split
    -- a relative path of which nothing is left is the current directory
    next => decide
    next some =>
      cases same : parts.reverse with
      | nil => simp [same] at some
      | cons first rest =>
        have there : first ≠ [] := named first (List.mem_reverse.1 (same ▸ List.mem_cons_self))
        cases rest <;> simp [Bytes.join, List.intercalate, there]

end Path

namespace Include

theorem ne_nil_of_findFile {files : FileTree} {directories : List Bytes} {path file : Bytes}
    (found : findFile files directories path = some file) : file ≠ [] := by
  -- whichever place is tried, a file that is found there has been made absolute
  have regular {place : Bytes} (there : files.regularFile? place = some file) (named : place ≠ []) :
      file ≠ [] := by
    unfold FileTree.regularFile? at there
    split at there
    · cases there
    · obtain rfl := Option.some.inj there
      unfold FileTree.absolute Path.absolute
      split
      next => exact Path.clean_ne_nil _
      next => simp [Path.join, named, Path.clean_ne_nil]
    · cases there
  unfold findFile at found
  split at found
  next => cases found
  next named =>
    split at found
    next there => exact regular (there.trans found) (by simpa using named)
    next =>
      split at found
      next => cases found
      next =>
        obtain ⟨d, -, there⟩ := List.exists_of_findSome?_eq_some found
        refine regular there ?_
        have some : ([d, path].filter (!·.isEmpty)).isEmpty = false := by
          cases d <;> simp_all
        simp [Path.join, some, Path.clean_ne_nil]

end Include

def World.HasImported (w : World τ) (c : ContextId) (name : Bytes) : Prop :=
  (w.context c).modules.contains name

instance (w : World τ) (c : ContextId) (name : Bytes) : Decidable (w.HasImported c name) :=
  inferInstanceAs (Decidable (_ = true))

theorem World.HasImported.later {w w' : World τ} {c : ContextId} {name : Bytes}
    (imported : w.HasImported c name) (onward : w.Extends w') : w'.HasImported c name := by
  by_cases known : w.contexts.has c
  · exact (onward.contexts c known).2.modules name imported
  · rw [HasImported, context, Pool.get_of_not_has _ known] at imported
    cases imported

theorem World.hasImported_recordModule {w : World τ} {c : ContextId} (known : w.contexts.has c)
    {m : ModuleId} (named : (w.modules.get m).name ≠ []) :
    (w.recordModule c m).HasImported c (w.modules.get m).name := by
  rw [HasImported, recordModule, context_updateContext, if_pos ⟨rfl, known⟩]
  simp [named, Table.contains]

theorem World.get?_of_not_hasImported {w : World τ} {c : ContextId} {name : Bytes}
    (missing : ¬ w.HasImported c name) : (w.context c).modules.get? name = none := by
  cases found : (w.context c).modules.get? name with
  | none => rfl
  | some m => exact absurd (Table.contains_iff.2 ⟨m, found⟩) missing

theorem Modules.importSource_missing {h : Host τ} {w : World τ} {c : ContextId} {source : Source}
    (missing : ¬ w.HasImported c source.name) :
    Modules.importSource h c source w = (do
      match ← Modules.importInScope h (w.context c).scope c source with
      | .error e => return .error e
      | .ok m =>
        Modules.register h c m
        return .ok m : Run τ (Except ImportError ModuleId)) w :=
  importSource_unregistered h fun _ => World.get?_of_not_hasImported missing

section Registration

variable {h : Host (Ledger σ)} (follows : h.Follows) {w v : Recorded σ} {c : ContextId}
  (ready : w.Ready making (some c))
include follows ready

theorem Modules.register_imports {m : ModuleId} (registered : register h c m w = (.ok (), v))
    (named : (v.modules.get m).name ≠ []) : v.HasImported c (v.modules.get m).name := by
  have course := declareAll_course follows ready m
  rw [register, bind_apply] at registered
  rcases result : declareAll h c m w with ⟨signal | _, u⟩ <;> rw [result] at course registered
  · cases registered
  · obtain rfl : u.recordModule c m = v := congrArg Prod.snd registered
    exact World.hasImported_recordModule (course.extends.contexts c (ready.present c rfl)).1 named

theorem Modules.importSource_imports {source : Source} {m : ModuleId}
    (missing : (w.context c).modules.get? source.name = none)
    (imported : importSource h c source w = (.ok (.ok m), v))
    (named : (v.modules.get m).name ≠ []) : v.HasImported c (v.modules.get m).name := by
  rw [importSource, bind_ok (context_apply w c)] at imported
  simp only [missing, ite_self] at imported
  have course := (importInScope_course follows c ready source).1
  rw [bind_apply] at imported
  rcases result : importInScope h (w.context c).scope c source w with ⟨signal | f | d, u⟩ <;>
    rw [result] at course imported
  · cases imported
  · cases imported
  · obtain ⟨_, u', registered, last⟩ := of_bind_ok imported
    cases last
    exact register_imports follows (course.ready ready) registered named

omit follows ready in
theorem Include.moduleOfFile_cases {kind : IncludeKind} {file : Bytes} {trace : Trace}
    {m : ModuleId} (loaded : moduleOfFile h c kind file trace w = (.ok (some m), v)) :
    ((w.context c).modules.get? file = some m ∧ v = w) ∨
    (w.context c).modules.get? file = none ∧
      ((w.scopes.get (w.context c).scope).modules.get? file = some m ∧
        Modules.register h c m w = (.ok (), v) ∨
      ∃ code, Modules.importSource h c ⟨file, file, code⟩ w = (.ok (.ok m), v)) := by
  rw [moduleOfFile, bind_ok (context_apply w c)] at loaded
  cases found : (w.context c).modules.get? file with
  | some d =>
    rw [found] at loaded
    cases loaded
    exact .inl ⟨rfl, rfl⟩
  | none =>
    rw [found] at loaded
    dsimp only at loaded
    refine .inr ⟨rfl, ?_⟩
    -- while the scope is taken no module is found, and none returned
    by_cases locked : (w.scopes.get (w.context c).scope).isImporting
    · rw [bind_apply, Modules.findModule_apply, if_pos locked] at loaded
      cases loaded
    rw [bind_ok ((Modules.findModule_apply w _ _).trans (if_neg locked))] at loaded
    cases shared : (w.scopes.get (w.context c).scope).modules.get? file with
    -- what the scope has is registered, what it does not have is imported first
    | some d =>
      rw [shared] at loaded
      obtain ⟨_, u, registered, last⟩ := of_bind_ok loaded
      cases last
      exact .inl ⟨rfl, registered⟩
    | none =>
      rw [shared] at loaded
      dsimp only at loaded
      rw [bind_ok (get_apply w)] at loaded
      cases read : w.files.read file with
      | error e =>
        rw [read] at loaded
        cases loaded
      | ok code =>
        rw [read] at loaded
        obtain ⟨result, u, imported, last⟩ := of_bind_ok loaded
        cases result with
        | ok d =>
          cases last
          exact .inr ⟨code, imported⟩
        | error e =>
          obtain ⟨_, _, _, last⟩ := of_bind_ok last
          cases last

theorem Include.moduleOfFile_imports {kind : IncludeKind} {file : Bytes} {trace : Trace}
    {m : ModuleId} (loaded : moduleOfFile h c kind file trace w = (.ok (some m), v))
    (named : file ≠ []) (own : (v.modules.get m).name = file) : v.HasImported c file := by
  subst own
  obtain ⟨found, rfl⟩ | ⟨missing, ⟨-, registered⟩ | ⟨code, imported⟩⟩ := moduleOfFile_cases loaded
  · exact Table.contains_iff.2 ⟨m, found⟩
  · exact Modules.register_imports follows ready registered named
  · exact Modules.importSource_imports follows ready missing imported named

theorem Modules.importSource_names (names : w.NamesModules) {source : Source} {m : ModuleId}
    (named : source.name ≠ []) (missing : (w.context c).modules.get? source.name = none)
    (imported : importSource h c source w = (.ok (.ok m), v)) :
    (v.modules.get m).name = source.name ∨ ∃ e ∈ v.embedder.journal,
      e.event.loaded = some (c, source, m) ∧
      (e.world.modules.has m → (v.modules.get m).name ≠ []) := by
  rw [importSource, bind_ok (context_apply w c)] at imported
  simp only [missing, ite_self] at imported
  obtain ⟨course, may⟩ := importInScope_course follows c ready source
  rw [bind_apply] at imported
  rcases result : importInScope h (w.context c).scope c source w with ⟨signal | f | d, u⟩ <;>
    rw [result] at course may imported
  · cases imported
  · cases imported
  · obtain ⟨_, u', registered, last⟩ := of_bind_ok imported
    cases last
    -- a module that has a name when it has been loaded keeps it while it is registered
    have rest := register_course follows (course.ready ready) (may m rfl).1
    rw [registered] at rest
    have kept (own : (u.modules.get m).name ≠ []) :
        (v.modules.get m).name = (u.modules.get m).name := by
      have known : u.modules.has m := Decidable.byContradiction fun unknown =>
        own (congrArg Module.name (Pool.get_of_not_has _ unknown))
      exact (rest.extends.modules m known).2 own
    rcases importInScope_names follows ready names named result with own | ⟨e, member, loaded, some⟩
    · exact .inl ((kept (own ▸ named)).trans own)
    · exact .inr ⟨e, rest.journal.subset member, loaded, fun there =>
        kept (some there) ▸ some there⟩

theorem Include.moduleOfFile_names (names : w.NamesModules) {kind : IncludeKind} {file : Bytes}
    {trace : Trace} {m : ModuleId} (named : file ≠ [])
    (loaded : moduleOfFile h c kind file trace w = (.ok (some m), v)) :
    v.HasImported c file ∨ ∃ e ∈ v.embedder.journal, ∃ source,
      e.event.loaded = some (c, source, m) ∧ source.name = file ∧
      (e.world.modules.has m → (v.modules.get m).name ≠ []) := by
  obtain ⟨found, rfl⟩ | ⟨missing, ⟨shared, registered⟩ | ⟨code, imported⟩⟩ :=
    moduleOfFile_cases loaded
  · exact .inl (Table.contains_iff.2 ⟨m, found⟩)
  · obtain ⟨-, own⟩ := names _ _ _ shared
    have course := Modules.register_course follows ready (.inr (.inr ⟨_, shared⟩))
    rw [registered] at course
    have known : w.modules.has m := Decidable.byContradiction fun unknown =>
      named (own.symm.trans (congrArg Module.name (Pool.get_of_not_has _ unknown)))
    have kept := (course.extends.modules m known).2 (own ▸ named)
    refine .inl ?_
    rw [← own, ← kept]
    exact Modules.register_imports follows ready registered (kept ▸ own ▸ named)
  · rcases Modules.importSource_names follows ready names named missing imported with
      own | ⟨e, member, loaded, some⟩
    · replace own : (v.modules.get m).name = file := own
      have here := Modules.importSource_imports follows ready missing imported (own ▸ named)
      exact .inl (own ▸ here)
    · exact .inr ⟨e, member, _, loaded, rfl, some⟩

end Registration

namespace Include

variable {h : Host τ} {w v : World τ} {c : ContextId} {kind : IncludeKind} {path file : Bytes}
  (found : findFile w.files (w.context c).searchPath.directories path = some file)
include found

theorem run_skips (once : kind.isOnce) (imported : w.HasImported c file) (table : Option TableId)
    (trace : Trace) : run h c kind path table trace w = (.ok (.bool true), w) := by
  have sought : find c path w = (.ok (some file), w) := by rw [← found]; rfl
  rw [run, bind_ok sought]
  dsimp only
  rw [bind_ok (context_apply w c), once, show (w.context c).modules.contains file from imported]
  rfl

theorem run_fresh (fresh : kind.isOnce → ¬ w.HasImported c file) (table : Option TableId)
    (trace : Trace) : run h c kind path table trace w = (do
      let some m ← moduleOfFile h c kind file trace | failed h c kind path trace
      let table := table.getD (← Run.context c).globals
      Calls.during c { trace, args := some [.text path], function := kind.name }
        (Modules.run h c m (some table)) : Run τ Value) w := by
  have sought : find c path w = (.ok (some file), w) := by rw [← found]; rfl
  have passes : (kind.isOnce && (w.context c).modules.contains file) ≠ true := by
    intro both
    obtain ⟨once, imported⟩ := Bool.and_eq_true_iff.1 both
    exact fresh once imported
  rw [run, bind_ok sought]
  dsimp only
  exact (bind_ok (context_apply w c)).trans (congrFun (if_neg passes) w)

theorem run_of_module (fresh : kind.isOnce → ¬ w.HasImported c file) {m : ModuleId}
    (table : Option TableId) {trace : Trace}
    (loaded : moduleOfFile h c kind file trace w = (.ok (some m), v)) :
    run h c kind path table trace w =
      Calls.during c { trace, args := some [.text path], function := kind.name }
        (Modules.run h c m (some (table.getD (v.context c).globals))) v := by
  rw [run_fresh found fresh, bind_ok loaded]
  dsimp only
  rw [bind_ok (context_apply v c)]

end Include

def Event.isBody (c : ContextId) : Event → Bool
  | .called (.runModule _ c' _) => c' = c
  | _ => false

theorem Moment.isBody_of_event {e : Moment σ} {c : ContextId} (body : e.event.isBody c) :
    e.isBody ∧ e.event.call?.isSome := by
  unfold Event.isBody at body
  split at body
  next same => simp [Moment.isBody, same, Event.call?, Call.isBody]
  next => cases body

section Body

variable {h : Host (Ledger σ)} (nests : h.Nests) {w : Recorded σ} {c : ContextId}
  (ready : w.Ready [c] (some c))
include nests ready

theorem Modules.run_direct (m : ModuleId) (table : Option TableId) :
    (w.direct (run h c m table w).2).countP (·.event.isBody c) ≤ 1 := by
  rw [run, bind_ok (moduleOf_apply w m)]
  cases (w.modules.get m).body with
  | none => simp [World.direct_of_same]
  | some b =>
    obtain ⟨outcome, v, answered, -, direct⟩ := nests.answered (.runModule b c table) ready
    have single : (w.direct (v.note (.answered (.runModule b c table) outcome))).countP
        (·.event.isBody c) ≤ 1 := by
      simp [direct, Event.isBody]
    dsimp only
    rw [bind_apply, show h.runModule b c table w = _ from answered]
    rcases outcome with signal | value
    · exact single
    · cases value <;> exact single

theorem Include.run_splits (kind : IncludeKind) (table : Option TableId) (trace : Trace)
    {path file : Bytes}
    (found : findFile w.files (w.context c).searchPath.directories path = some file) :
    (run h c kind path table trace).LacksBody c w ∨
    ∃ m v, (kind.isOnce → ¬ w.HasImported c file) ∧
      moduleOfFile h c kind file trace w = (.ok (some m), v) ∧
      (∀ e ∈ w.direct v, e.isBody = false) ∧ Course [c] w v ∧
      Course [c] v (run h c kind path table trace w).2 ∧
      (v.direct (run h c kind path table trace w).2).countP (·.event.isBody c) ≤ 1 := by
  by_cases skips : kind.isOnce ∧ w.HasImported c file
  · refine .inl (.of_silent ready ?_ ?_) <;> rw [run_skips found skips.1 skips.2]
    exact .still w
  have fresh : kind.isOnce → ¬ w.HasImported c file := fun once imported => skips ⟨once, imported⟩
  have lacks := moduleOfFile_bodiless nests kind file trace w ready
  rcases loaded : moduleOfFile h c kind file trace w with ⟨signal | _ | m, v⟩
  · refine .inl (.congr (run_fresh found fresh table trace) (lacks.bind fun a _ result _ => ?_))
    cases loaded.symm.trans result
  · refine .inl (.congr (run_fresh found fresh table trace) (lacks.bind fun a u result later => ?_))
    cases loaded.symm.trans result
    exact failed_bodiless nests kind path trace v later
  · have course := (moduleOfFile_follows nests.follows c kind file trace).course ready loaded
    have later := course.ready ready
    have rest := Calls.during_follows c
      (f := { trace, args := some [.text path], function := kind.name }) rfl
      (Modules.run_follows nests.follows c m (some (table.getD (v.context c).globals))) [c] v later
    have bodiless := lacks.bodiless
    rw [loaded] at bodiless
    refine .inr ⟨m, v, fresh, rfl, bodiless, course, ?_, ?_⟩ <;>
      rw [run_of_module found fresh table loaded]
    · exact rest
    · let f : Frame := { trace, args := some [.text path], function := kind.name }
      have unframed (u : Recorded σ) : v.direct (u.popFrame c) = (v.pushFrame c f).direct u :=
        World.direct_congr rfl (congrArg Ledger.journal (World.popFrame_embedder u c))
      rw [Calls.during_apply, unframed]
      have pushed : (v.pushFrame c f).Ready [c] (some c) := later.pushFrame c fun _ same => nomatch same
      exact Modules.run_direct nests pushed m _

theorem Include.run_once (kind : IncludeKind) (table : Option TableId) (trace : Trace)
    {path file : Bytes}
    (found : findFile w.files (w.context c).searchPath.directories path = some file) :
    (w.direct (run h c kind path table trace w).2).countP (·.event.isBody c) ≤ 1 := by
  have none {v : Recorded σ} (bodiless : ∀ e ∈ w.direct v, e.isBody = false) :
      (w.direct v).countP (·.event.isBody c) = 0 :=
    List.countP_eq_zero.2 fun e member body =>
      nomatch (bodiless e member).symm.trans (Moment.isBody_of_event body).1
  obtain lacks | ⟨m, v, -, -, bodiless, course, rest, few⟩ :=
    run_splits nests ready kind table trace found
  · rw [none lacks.bodiless]
    exact Nat.zero_le 1
  · rw [course.direct_trans rest, List.countP_append, none bodiless]
    omega

end Body

/-- An include of some kind that is asked for in a context and finds the file. -/
def Occasion.Includes (t : Occasion σ) (kind : IncludeKind) (c : ContextId) (file : Bytes) : Prop :=
  ∃ path table trace, t.operation = .act c (.includeFile kind path table trace) ∧
    Include.findFile t.first.files (t.first.context c).searchPath.directories path = some file

namespace Occasion.Includes

variable {t : Occasion σ} {kind : IncludeKind} {c : ContextId} {file : Bytes}
  {early early' : List (Moment σ)} {x x' : Moment σ}

theorem file_ne_nil (includes : t.Includes kind c file) : file ≠ [] := by
  obtain ⟨path, table, trace, -, found⟩ := includes
  exact Include.ne_nil_of_findFile found

theorem skips (includes : t.Includes kind c file) (once : kind.isOnce)
    (imported : t.first.HasImported c file) :
    t.last = t.first.begin t.operation ∧ ∃ path table trace, Event.finished t.operation t.outcome =
      .finished (.act c (.includeFile kind path table trace)) (.ok (.bool true)) := by
  have there : t.first.contexts.has c := Decidable.byContradiction fun unknown => by
    rw [World.HasImported, World.context, Pool.get_of_not_has _ unknown] at imported
    cases imported
  obtain ⟨path, table, trace, asked, found⟩ := includes
  obtain ⟨h, scripted, result⟩ := t.performs.request
  obtain ⟨operation, outcome, first, last, performs⟩ := t
  subst asked
  have grounded : (Operation.act c (.includeFile kind path table trace)).isGrounded
      (first.begin (.act c (.includeFile kind path table trace))) :=
    Bool.and_eq_true_iff.2 ⟨there, rfl⟩
  have skipped := Include.run_skips (h := h)
    (w := first.begin (.act c (.includeFile kind path table trace))) found once imported table trace
  rw [Operation.request, if_pos grounded] at result
  cases skipped.symm.trans result
  exact ⟨rfl, path, table, trace, rfl⟩

theorem there (includes : t.Includes kind c file) (spans : t.Spans early x) :
    t.first.contexts.has c := by
  obtain ⟨path, table, trace, asked, -⟩ := includes
  have grounded := spans.grounded
  rw [asked] at grounded
  exact (Bool.and_eq_true_iff.1 grounded).1

theorem splits (includes : t.Includes kind c file) (sound : t.first.Sound)
    (spans : t.Spans early x) :
    ∃ (h : Host (Ledger σ)) (path : Bytes) (table : Option TableId) (trace : Trace), h.Nests ∧
      (t.first.begin t.operation).Ready [c] (some c) ∧
      Include.findFile t.first.files (t.first.context c).searchPath.directories path = some file ∧
      (Include.run h c kind path table trace (t.first.begin t.operation)).2 = t.last := by
  have there := includes.there spans
  obtain ⟨path, table, trace, asked, found⟩ := includes
  obtain ⟨h, scripted, result⟩ := t.performs.request
  have ready := (sound.begin t.operation).readyFor (c := c) there
  refine ⟨h, path, table, trace, scripted.nests, ready, found, ?_⟩
  have grounded := spans.grounded
  obtain ⟨operation, outcome, first, last, performs⟩ := t
  subst asked
  rw [Operation.request, if_pos grounded] at result
  exact congrArg Prod.snd result

theorem reaches (includes : t.Includes kind c file) (sound : t.first.Sound)
    (notes : t.Notes early x) (body : x.event.isBody c) :
    (kind.isOnce → ¬ t.first.HasImported c file) ∧
    ∃ (h : Host (Ledger σ)) (trace : Trace) (m : ModuleId) (v : Recorded σ), h.Follows ∧
      (t.first.begin t.operation).Ready [c] (some c) ∧
      Include.moduleOfFile h c kind file trace (t.first.begin t.operation) = (.ok (some m), v) ∧
      v.embedder.journal <+: early ∧ Course [c] v t.last := by
  obtain ⟨h, path, table, trace, nests, ready, found, ended⟩ := includes.splits sound notes.toSpans
  obtain ⟨own, isCall⟩ := Moment.isBody_of_event body
  have isAt := notes.isAt isCall
  rcases Include.run_splits nests ready kind table trace found with
    lacks | ⟨m, v, fresh, loaded, bodiless, course, rest, -⟩
  · have member : x ∈ (t.first.begin t.operation).direct t.last := by
      refine List.mem_filter.2 ⟨?_, isAt⟩
      exact notes.toSpans.mem_since
    rw [← ended] at member
    cases (lacks.bodiless x member).symm.trans own
  · rw [ended] at rest
    refine ⟨fresh, h, trace, m, v, nests.follows, ready, loaded, ?_, rest⟩
    rcases Nat.lt_or_ge early.length v.embedder.journal.length with inside | beyond
    -- what is noted before the module is there is no body
    · have within : early ++ [x] <+: v.embedder.journal :=
        List.prefix_of_prefix_length_le notes.ongoing rest.journal
          (by rwa [List.length_append])
      have member : x ∈ (t.first.begin t.operation).direct v :=
        List.mem_filter.2 ⟨World.mem_since (u := t.first.begin t.operation) notes.begun within, isAt⟩
      cases (bodiless x member).symm.trans own
    · exact List.prefix_of_prefix_length_le rest.journal
        ((List.prefix_append early [x]).trans notes.ongoing) beyond

theorem unique (includes : t.Includes kind c file) (sound : t.first.Sound)
    (notes : t.Notes early x) (body : x.event.isBody c) (notes' : t.Notes early' x')
    (body' : x'.event.isBody c) : early = early' := by
  obtain ⟨h, path, table, trace, nests, ready, found, ended⟩ := includes.splits sound notes.toSpans
  have few := Include.run_once nests ready kind table trace found
  rw [ended] at few
  obtain ⟨before, after, since, rfl⟩ := notes.toSpans.since
  obtain ⟨before', after', since', rfl⟩ := notes'.toSpans.since
  have isAt := notes.isAt (Moment.isBody_of_event body).2
  have isAt' := notes'.isAt (Moment.isBody_of_event body').2
  rw [World.direct, List.countP_filter] at few
  exact congrArg _
    (eq_of_countP_le_one few since since' (by simp [body, isAt]) (by simp [body', isAt']))

end Occasion.Includes

/-- An include runs a file: its body is called at the moment `x`, which comes after `early`. -/
structure World.RunsFile (z : Recorded σ) (kind : IncludeKind) (c : ContextId) (file : Bytes)
    (t : Occasion σ) (early : List (Moment σ)) (x : Moment σ) : Prop where
  placed : early ++ [x] <+: z.embedder.journal
  includes : t.Includes kind c file
  notes : t.Notes early x
  body : x.event.isBody c

/-- What is loaded from a file has the name of the file in the end, or none. -/
def World.KeepsName (z : Recorded σ) (file : Bytes) : Prop :=
  ∀ e ∈ z.embedder.journal, ∀ c source m, e.event.loaded = some (c, source, m) →
    source.name = file → e.world.modules.has m ∧
      ((z.modules.get m).name = [] ∨ (z.modules.get m).name = file)

/-- The file is run inside an include that runs it once more when it goes on. -/
def World.Reenters (z : Recorded σ) (c : ContextId) (file : Bytes) : Prop :=
  ∃ kind kind' t t' early early' x x', z.RunsFile kind c file t early x ∧
    z.RunsFile kind' c file t' early' x' ∧ early.length < early'.length ∧
    t'.operation :: t'.first.embedder.running <:+ t.first.embedder.running

structure World.IncludesOnce (z : Recorded σ) : Prop where
  arises : ∀ early x, early ++ [x] <+: z.embedder.journal → x.Arises [] early
  skipped : ∀ kind c file (t : Occasion σ) early x, t.Includes kind c file → t.Ends early x →
    early ++ [x] <+: z.embedder.journal → kind.isOnce → t.first.HasImported c file →
    t.last = t.first.begin t.operation ∧ ∃ path table trace,
      x.event = .finished (.act c (.includeFile kind path table trace)) (.ok (.bool true))
  fresh : ∀ kind c file t early x, z.RunsFile kind c file t early x → kind.isOnce →
    ¬ t.first.HasImported c file
  entered : ∀ kind c file t early x, z.RunsFile kind c file t early x → z.KeepsName file →
    x.world.HasImported c file
  again : ∀ kind kind' c file t t' early early' x x', z.RunsFile kind c file t early x →
    z.RunsFile kind' c file t' early' x' → z.KeepsName file → kind'.isOnce →
    early.length < early'.length →
    t'.operation :: t'.first.embedder.running <:+ t.first.embedder.running
  once : ∀ kind kind' c file t t' early early' x x', z.RunsFile kind c file t early x →
    z.RunsFile kind' c file t' early' x' → z.KeepsName file → kind.isOnce → kind'.isOnce →
    ¬ z.Reenters c file → early = early'
  kept : ∀ before e after, z.embedder.journal = before ++ e :: after →
    ∀ c file, e.world.HasImported c file → ∀ e' ∈ e :: after, e'.world.HasImported c file

theorem World.IsChronicled.keeps_imported {z : Recorded σ} (chronicle : z.IsChronicled)
    {before after : List (Moment σ)} {e e' : Moment σ}
    (journal : z.embedder.journal = before ++ e :: after) {c : ContextId} {file : Bytes}
    (imported : e.world.HasImported c file) (member : e' ∈ e :: after) :
    e'.world.HasImported c file := by
  have ordered : z.embedder.journal.Pairwise _ := Chronicle.pairwise chronicle
  rw [journal, List.pairwise_append] at ordered
  rcases List.mem_cons.1 member with rfl | later
  · exact imported
  · obtain ⟨v, onward, arises⟩ := List.rel_of_pairwise_cons ordered.2.1 later
    exact imported.later (onward.trans arises.onward)

namespace World.RunsFile

variable {z : Recorded σ} {kind kind' : IncludeKind} {c : ContextId} {file : Bytes}
  {t t' : Occasion σ} {early early' : List (Moment σ)} {x x' : Moment σ}
  (runs : z.RunsFile kind c file t early x)

section Sound

variable (sound : ∀ e ∈ z.embedder.journal, e.world.Sound)
include runs sound

theorem first_sound : t.first.Sound := by
  have begun := runs.notes.begun.trans ((List.prefix_append early [x]).trans runs.placed)
  exact t.sound (fun e member => sound e (begun.subset member))
    (runs.includes.there runs.notes.toSpans)

theorem fresh (once : kind.isOnce) : ¬ t.first.HasImported c file :=
  (runs.includes.reaches (runs.first_sound sound) runs.notes runs.body).1 once

theorem entered (chronicle : z.IsChronicled)
    (names : ∀ e ∈ z.embedder.journal, e.world.NamesModules) (keeps : z.KeepsName file) :
    x.world.HasImported c file := by
  obtain ⟨-, h, trace, m, v, follows, ready, loaded, reached, rest⟩ :=
    runs.includes.reaches (runs.first_sound sound) runs.notes runs.body
  have named : (t.first.begin t.operation).NamesModules := by
    obtain ⟨before, e, journal, own, same⟩ := t.sampled (runs.includes.there runs.notes.toSpans)
    have begun := runs.notes.begun.trans ((List.prefix_append early [x]).trans runs.placed)
    have member : e ∈ t.first.embedder.journal := journal ▸ List.mem_append_right _ List.mem_cons_self
    have kept : t.first.unrecorded.NamesModules := same ▸ names e (begun.subset member)
    exact kept
  -- from the moment on when the module is there the body finds it in the context
  have onward : v.unrecorded.Extends x.world := by
    obtain ⟨new, journal, each⟩ := rest.adds_onward (.refl v)
    refine each x ?_
    rw [← World.since_append journal]
    exact World.mem_since reached runs.notes.ongoing
  have here : x ∈ z.embedder.journal :=
    runs.placed.subset (List.mem_append_right _ List.mem_cons_self)
  have some := runs.includes.file_ne_nil
  refine World.HasImported.later (w := v.unrecorded) ?_ onward
  rcases Include.moduleOfFile_names follows ready named some loaded with
    imported | ⟨e, member, source, loads, same, given⟩
  · exact imported
  · have before : v.embedder.journal <+: z.embedder.journal :=
      reached.trans ((List.prefix_append early [x]).trans runs.placed)
    obtain ⟨there, own⟩ := keeps e (before.subset member) c source m loads same
    have named := given there
    have known : v.modules.has m := Decidable.byContradiction fun unknown =>
      named (congrArg Module.name (Pool.get_of_not_has _ unknown))
    have still : (z.modules.get m).name = (v.modules.get m).name :=
      ((onward.trans (chronicle.onward x here)).modules m known).2 named
    rw [still] at own
    exact Include.moduleOfFile_imports follows ready loaded some (own.resolve_left named)

theorem again (runs' : z.RunsFile kind' c file t' early' x') (chronicle : z.IsChronicled)
    (names : ∀ e ∈ z.embedder.journal, e.world.NamesModules) (keeps : z.KeepsName file)
    (once : kind'.isOnce) (later : early.length < early'.length) :
    t'.operation :: t'.first.embedder.running <:+ t.first.embedder.running := by
  have sound' := runs'.first_sound sound
  have begun : t'.first.embedder.journal <+: z.embedder.journal :=
    runs'.notes.begun.trans ((List.prefix_append early' [x']).trans runs'.placed)
  -- an include that begins after the file has been run does not run it
  have inside : t'.first.embedder.journal.length ≤ early.length := by
    refine Nat.le_of_not_lt fun beyond => runs'.fresh sound once ?_
    obtain ⟨before, e, journal, own, same⟩ := t'.sampled (runs'.includes.there runs'.notes.toSpans)
    have imported := runs.entered sound chronicle names keeps
    obtain ⟨mid, reached⟩ : early ++ [x] <+: before ++ [e] :=
      journal ▸ List.prefix_of_prefix_length_le runs.placed begun (by rwa [List.length_append])
    obtain ⟨after, whole⟩ := begun
    rw [journal, ← reached, List.append_assoc, List.append_assoc] at whole
    rw [List.append_assoc] at reached
    have last : e ∈ x :: mid := by
      rcases split_concat reached.symm with ⟨-, rfl, -⟩ | ⟨rest, rfl, -⟩ <;> simp
    have still := chronicle.keeps_imported whole.symm imported
      (List.mem_append_left after last : e ∈ x :: mid ++ after)
    have kept : t'.first.unrecorded.HasImported c file := same ▸ still
    exact kept
  have spans : t'.Spans early x :=
    { begun := List.prefix_of_prefix_length_le begun
        ((List.prefix_append early [x]).trans runs.placed) inside
      ongoing := by
        refine List.IsPrefix.trans ?_ ((List.prefix_append early' [x']).trans runs'.notes.ongoing)
        refine List.prefix_of_prefix_length_le runs.placed
          ((List.prefix_append early' [x']).trans runs'.placed) ?_
        rwa [List.length_append] }
  have above := spans.above sound'
  rw [runs.notes.running, List.suffix_cons_iff] at above
  refine above.resolve_left fun same => ?_
  -- one include runs a file no more than once
  have notes' : t'.Notes early x := ⟨spans, runs.notes.running.trans same.symm⟩
  have unique := runs'.includes.unique sound' notes' runs.body runs'.notes runs'.body
  exact Nat.lt_irrefl _ (unique ▸ later)

end Sound

end World.RunsFile

theorem World.includesOnce {z : Recorded σ} (chronicle : z.IsChronicled)
    (arises : ∀ early x, early ++ [x] <+: z.embedder.journal → x.Arises [] early)
    (sound : ∀ e ∈ z.embedder.journal, e.world.Sound)
    (names : ∀ e ∈ z.embedder.journal, e.world.NamesModules) : z.IncludesOnce where
  arises := arises
  skipped kind c file t early x includes ends _ once imported := by
    obtain ⟨last, finished⟩ := includes.skips once imported
    exact ⟨last, ends.event ▸ finished⟩
  fresh _ _ _ _ _ _ runs := runs.fresh sound
  entered _ _ _ _ _ _ runs := runs.entered sound chronicle names
  again _ _ _ _ _ _ _ _ _ _ runs runs' := runs.again sound runs' chronicle names
  once kind kind' c file t t' early early' x x' runs runs' keeps first once apart := by
    have ends := (List.prefix_append early [x]).trans runs.placed
    have ends' := (List.prefix_append early' [x']).trans runs'.placed
    rcases Nat.lt_trichotomy early.length early'.length with before | same | after
    · exact absurd ⟨kind, kind', t, t', early, early', x, x', runs, runs', before,
        runs.again sound runs' chronicle names keeps once before⟩ apart
    · exact (List.prefix_of_prefix_length_le ends ends' (Nat.le_of_eq same)).eq_of_length same
    · exact absurd ⟨kind', kind, t', t, early', early, x', x, runs', runs, after,
        runs'.again sound runs chronicle names keeps first after⟩ apart
  kept _ _ _ journal _ _ imported _ member := chronicle.keeps_imported journal imported member

/-- `include_once` and `require_once` together run a file at most once, if its module has the name
of the file and no hook or compiler that an include of the file calls runs it as well. Where the
context has a module of that name they return true and do nothing; it has it from the moment on when
an include of any kind runs the file, also while the file runs, and never loses it again. A run that
comes before can only lie inside, in what the later include does to load the file. -/
theorem Script.file_included_once (s : Script σ) (depth : Nat) :
    (∀ (w w' : Recorded σ) c kind path file table trace outcome, w.Sound → w.contexts.has c →
      Include.findFile w.files (w.context c).searchPath.directories path = some file →
      Include.run (s.host depth) c kind path table trace w = (outcome, w') →
      (kind.isOnce → w.HasImported c file → outcome = .ok (.bool true) ∧ w' = w) ∧
      ∀ m v, (kind.isOnce → ¬ w.HasImported c file) →
        Include.moduleOfFile (s.host depth) c kind file trace w = (.ok (some m), v) →
        (v.modules.get m).name = file →
        v.HasImported c file ∧ w'.HasImported c file ∧
          ∀ e ∈ v.since w', e.world.HasImported c file) ∧
    ∀ (ρ : Type) (code : Code σ ρ) (files : FileTree) (own : σ),
      World.IncludesOnce (code.run (s.host depth) (.start files own)).2 ∧
      (∀ e ∈ s.journal depth code files own, e.world.Sound) ∧
      ∀ before e after, s.journal depth code files own = before ++ e :: after →
        ∀ c file, e.world.HasImported c file → ∀ e' ∈ e :: after, e'.world.HasImported c file ∧
          ∀ (h : Host (Ledger σ)) (u : Recorded σ) kind path table trace,
            u.unrecorded = e'.world → kind.isOnce →
            Include.findFile u.files (u.context c).searchPath.directories path = some file →
            Include.run h c kind path table trace u = (.ok (.bool true), u) := by
  refine ⟨fun w w' c kind path file table trace outcome sound there found result => ?_,
    fun ρ code files own => ?_⟩
  · refine ⟨fun once imported => ?_, fun m v fresh loaded own => ?_⟩
    · rw [Include.run_skips found once imported] at result
      cases result
      exact ⟨rfl, rfl⟩
    · have follows := s.host_follows depth
      have ready : w.Ready [c] (some c) := sound.readyFor there
      have later : v.Ready [c] (some c) :=
        ((Include.moduleOfFile_follows follows c kind file trace).course ready loaded).ready ready
      -- the module is registered before it runs, so the body finds it in the context
      have imported := Include.moduleOfFile_imports follows ready loaded
        (Include.ne_nil_of_findFile found) own
      rw [Include.run_of_module found fresh table loaded] at result
      have course := Run.Follows.course
        (Calls.during_follows c rfl (Modules.run_follows follows c m _)) later result
      refine ⟨imported, imported.later course.extends, fun e member => ?_⟩
      obtain ⟨new, journal, each⟩ := course.adds_onward (.refl v)
      rw [World.since, journal, List.drop_left] at member
      exact World.HasImported.later (w := v.unrecorded) imported (each e member)
  · have course := s.course depth code files own
    have chronicle := course.chronicled (World.start_sound files own) (.start files own)
    have moments {P : World σ → Prop} (invariant : World.IsInvariant P)
        (start : P (World.start files own).unrecorded) :
        ∀ e ∈ s.journal depth code files own, P e.world := by
      obtain ⟨-, new, journal, each⟩ := course.throughout invariant start
      rw [Script.journal, journal]
      exact each
    have sound := moments World.sound_invariant (World.start_sound files own).unrecorded
    have names := moments World.namesModules_invariant fun _ _ _ found => by cases found
    have arises (early : List (Moment σ)) (x : Moment σ)
        (placed : early ++ [x] <+: s.journal depth code files own) : x.Arises [] early := by
      obtain ⟨new, journal, each⟩ := course.occasions
      obtain ⟨late, whole⟩ := placed
      refine each early x late ?_
      rw [← show s.journal depth code files own = new from journal, ← whole]
      simp
    refine ⟨World.includesOnce chronicle arises sound names, sound,
      fun before e after journal c file imported e' member => ?_⟩
    -- a later moment goes on from the earlier one, and a context loses no module on the way
    have still := chronicle.keeps_imported journal imported member
    refine ⟨still, fun h u kind path table trace same once found => ?_⟩
    have there : u.unrecorded.HasImported c file := same ▸ still
    exact Include.run_skips found once there table trace

def naming (name : Bytes) : Script Unit where
  patience := 1
  code
    | .compile .. =>
      .ask (.newModule { (default : Module) with name, body := some ⟨1⟩ }) fun outcome =>
        .done (outcome.map .ok)
    | .runModule .. => .done (.ok .null)
    | _ => .done (.error .exhausted)

def oneFile : FileTree := (FileTree.make "/").writeFile "/a.php" ""

def unincluded : Recorded Unit :=
  ((Code.each () compilingContext : Code Unit Unit).run ((naming []).host 2) (.start oneFile ())).2

def includeOnce (w : Recorded Unit) : Except Signal Value × Recorded Unit :=
  Include.run ((naming []).host 2) ⟨0⟩ .includeOnce "a.php" none {} w

def included : Recorded Unit := (includeOnce unincluded).2

theorem file_included_once_unnamed :
    (∃ e ∈ included.embedder.journal, e.event.isBody ⟨0⟩) ∧
    (includeOnce included).1 = .ok (.bool true) ∧ (includeOnce included).2 = included := by
  obtain ⟨runs, -⟩ := (naming []).file_included_once 2
  have begun := (naming []).course 2 (.each () compilingContext) oneFile ()
  have sound : unincluded.Sound := begun.sound (World.start_sound oneFile ())
  have there : unincluded.contexts.has ⟨0⟩ := by decide +kernel
  have course : Course [⟨0⟩] unincluded included :=
    Include.run_follows ((naming []).host_follows 2) ⟨0⟩ .includeOnce "a.php" none {} _ unincluded
      (sound.readyFor there)
  let loaded := Include.moduleOfFile ((naming []).host 2) ⟨0⟩ .includeOnce "/a.php" {} unincluded
  have module : loaded = (.ok (some ⟨0⟩), loaded.2) :=
    have returned : loaded.1.toOption = some (some ⟨0⟩) := by decide +kernel
    (Prod.eta loaded).symm.trans (congrArg (·, loaded.2) (eq_ok_of_toOption returned))
  have imported := ((runs unincluded included ⟨0⟩ .includeOnce "a.php" "/a.php" none {} _ sound
    there (by decide +kernel) (Prod.eta (includeOnce unincluded)).symm).2 ⟨0⟩ loaded.2
    (by decide +kernel) module (by decide +kernel)).2.1
  have again := (runs included _ ⟨0⟩ .includeOnce "a.php" "/a.php" none {} _ (course.sound sound)
    (by decide +kernel) (by decide +kernel) (Prod.eta (includeOnce included)).symm).1 rfl imported
  exact ⟨by decide +kernel, again⟩

def Moment.isOnceBody (c : ContextId) (path : Bytes) (e : Moment σ) : Bool :=
  e.event.isBody c &&
  match e.running.head? with
  | some (.act c' (.includeFile kind path' _ _)) => c' = c && kind.isOnce && path' = path
  | _ => false

def renamed : List (Moment Unit) :=
  (naming "other").journal 2
    (.each () (compilingContext ++ [.act ⟨0⟩ (.includeFile .includeOnce "a.php" none {}),
      .act ⟨0⟩ (.includeFile .includeOnce "a.php" none {})])) oneFile ()

theorem file_run_twice :
    (∀ e ∈ renamed, Include.findFile e.world.files (e.world.context ⟨0⟩).searchPath.directories
      "a.php" = some "/a.php") ∧
    ∃ before first between again after,
      renamed = before ++ first :: (between ++ again :: after) ∧
      first.isOnceBody ⟨0⟩ "a.php" ∧ again.isOnceBody ⟨0⟩ "a.php" := by
  obtain ⟨first, runs, journal⟩ := split_at
    (show renamed[7]?.any (·.isOnceBody ⟨0⟩ "a.php") by decide +kernel)
  obtain ⟨again, repeats, later⟩ := split_at
    (show (renamed.drop 8)[5]?.any (·.isOnceBody ⟨0⟩ "a.php") by decide +kernel)
  rw [later] at journal
  exact ⟨by decide +kernel, _, first, _, again, _, journal, runs, repeats⟩

end ScriptHost
