import ScriptHost.Proofs.Embedder.Directness
import ScriptHost.Proofs.Output.Conservation
import ScriptHost.Proofs.Registry.Inheritance
import ScriptHost.Proofs.Registry.Stability

set_option autoImplicit false

namespace ScriptHost

open Run

variable {σ τ : Type}

namespace World

def override (w : World τ) (c : ContextId) (key : Bytes) : Option Bytes :=
  (w.context c).overrides.get? key

def provided (w : World τ) (s : ScopeId) (key : Bytes) : Option Bytes :=
  (w.scopes.get s).defaults.get? key

def visible (w : World τ) (c : ContextId) (key : Bytes) : Option Bytes :=
  (w.override c key).or (w.provided (w.context c).scope key)

structure SparesSettings (w w' : World τ) : Prop where
  overrides : ∀ c, w.contexts.has c → ∀ key, w'.override c key = w.override c key
  defaults : ∀ s, w.scopes.has s → ∀ key, w'.provided s key = w.provided s key

def storeSetting (w : World τ) (c : ContextId) (key text : Bytes) : World τ :=
  w.updateContext c fun x => { x with overrides := x.overrides.insert key text }

def dropSetting (w : World τ) (c : ContextId) (key : Bytes) : World τ :=
  w.updateContext c fun x => { x with overrides := x.overrides.erase key }

variable {w : World τ} {c d : ContextId} {key other : Bytes}

theorem override_updateContext (f : Context → Context) :
    (w.updateContext c f).override d key =
      if c = d ∧ w.contexts.has c then (f (w.context d)).overrides.get? key
      else w.override d key := by
  unfold override
  rw [context_updateContext]
  split <;> rfl

theorem override_storeSetting (there : w.contexts.has c) (text : Bytes) :
    (w.storeSetting c key text).override d other =
      if c = d ∧ key = other then some text else w.override d other := by
  rw [storeSetting, override_updateContext]
  by_cases here : c = d
  · rw [if_pos ⟨here, there⟩, Table.get?_insert]
    simp only [here, true_and, eq_comm (a := other)]
    rfl
  · rw [if_neg (here ·.1), if_neg (here ·.1)]

theorem override_dropSetting (there : w.contexts.has c) :
    (w.dropSetting c key).override d other =
      if c = d ∧ key = other then none else w.override d other := by
  rw [dropSetting, override_updateContext]
  by_cases here : c = d
  · rw [if_pos ⟨here, there⟩, Table.get?_erase]
    simp only [here, true_and, eq_comm (a := other)]
    rfl
  · rw [if_neg (here ·.1), if_neg (here ·.1)]

theorem lookup_visible (w : World τ) (c : ContextId) (key : Bytes) :
    Settings.lookup c key w = (.ok (w.visible c key), w) :=
  Settings.lookup_apply c key w

end World

namespace Settings

inductive Request where
  | set (c : ContextId) (key : Bytes) (v : Value)
  | restore (c : ContextId) (key : Bytes)
  | setDefault (s : ScopeId) (key : Bytes) (v : Value)

abbrev Request.operation : Request → Operation
  | set c key v => .act c (.setSetting key v)
  | restore c key => .act c (.restoreSetting key)
  | setDefault s key v => .setDefault s key v

structure Deed where
  request : Request
  text : Bytes
  isCompleted : Bool

def Request.deed (r : Request) (w : World τ) (isCompleted : Bool) : Deed :=
  match r with
  | set _ _ v | setDefault _ _ v => ⟨r, w.textOf v, isCompleted⟩
  | restore _ _ => ⟨r, [], isCompleted⟩

/-- What a context has set for a key after a deed that is about it. A text is set on completion, and
restored either way. -/
def Deed.override? (c : ContextId) (key : Bytes) : Deed → Option (Option Bytes)
  | ⟨.set d k _, text, true⟩ => if d = c ∧ k = key then some (some text) else none
  | ⟨.restore d k, _, _⟩ => if d = c ∧ k = key then some none else none
  | _ => none

def Deed.provided? (s : ScopeId) (key : Bytes) : Deed → Option Bytes
  | ⟨.setDefault t k _, text, true⟩ => if t = s ∧ k = key then some text else none
  | _ => none

def last? {α : Type} (tells : Deed → Option α) (past : List Deed) : Option α :=
  past.reverse.findSome? tells

theorem last?_concat {α : Type} (tells : Deed → Option α) (past : List Deed) (d : Deed) :
    last? tells (past ++ [d]) = (tells d).or (last? tells past) := by
  rw [last?, List.reverse_append, List.reverse_singleton, List.singleton_append,
    List.findSome?_cons]
  cases tells d <;> rfl

def SparedBetween (w w' : Recorded σ) : Prop :=
  ∀ m m', w.direct w' = [m, m'] → m.world.SparesSettings m'.world

/-- What is done about settings from one world to another, when observers leave them alone. Anything
else that does may happen in between. -/
inductive History (h : Host (Ledger σ)) (w : Recorded σ) : List Deed → Recorded σ → Prop
  | start : History h w [] w
  | asked {past : List Deed} {v u : Recorded σ} (before : History h w past v) (r : Request)
      {outcome : Except Signal r.operation.Result}
      (ended : r.operation.request h (v.begin r.operation) = (outcome, u))
      (spared : SparedBetween (v.begin r.operation) u) :
      History h w (past ++ [r.deed v outcome.isOk])
        (u.finish v.embedder.running r.operation outcome)
  | aside {past : List Deed} {v u : Recorded σ} (before : History h w past v)
      (later : v.Extends u) (sound : u.Sound) (spares : v.SparesSettings u) : History h w past u

def Notified (w : Recorded σ) (c : ContextId) (key : Bytes) (value : Option Bytes)
    (outcome : Except Signal Unit) (w' : Recorded σ) : Prop :=
  match w.observers.get? key with
  | none => w.direct w' = []
  | some .searchPath =>
    w.direct w' = [] ∧ (w'.context c).searchPath = .ofList (Path.splitList (value.getD []))
  | some (.callback k) =>
    (w.direct w').map (·.event) =
      [.called (.settingChanged k c value), .answered (.settingChanged k c value) outcome]

theorem notify_apply (h : Host τ) (c : ContextId) (key : Bytes) (value : Option Bytes)
    (w : World τ) :
    notify h c key value w = match w.observers.get? key with
      | none => (.ok (), w)
      | some .searchPath =>
        (.ok (), w.updateContext c fun x =>
          { x with searchPath := .ofList (Path.splitList (value.getD [])) })
      | some (.callback k) => h.settingChanged k c value w := by
  rw [notify, bind_ok (get_apply w)]
  rcases w.observers.get? key with _ | _ | k <;> rfl

theorem set_apply (h : Host τ) (c : ContextId) (key : Bytes) (v : Value) (w : World τ) :
    set h c key v w = match notify h c key (some (w.textOf v)) w with
      | (.ok _, u) => (.ok (w.visible c key), u.storeSetting c key (w.textOf v))
      | (.error signal, u) => (.error signal, u) := by
  rw [set, bind_ok (w.lookup_visible c key), bind_ok (w.textOf_apply v), bind_apply]
  rcases notify h c key (some (w.textOf v)) w with ⟨_ | _, u⟩ <;> rfl

theorem restore_apply (h : Host τ) (c : ContextId) (key : Bytes) (w : World τ) :
    restore h c key w =
      notify h c key ((w.dropSetting c key).visible c key) (w.dropSetting c key) :=
  bind_ok ((w.dropSetting c key).lookup_visible c key)

section Observed

variable {h : Host (Ledger σ)} (nests : h.Nests) {c : ContextId} {key : Bytes}
  {value : Option Bytes} {w x : Recorded σ} {outcome : Except Signal Unit}
include nests

theorem notify_once (sound : w.Sound) (there : w.contexts.has c)
    (ended : notify h c key value w = (outcome, x)) (spared : SparedBetween w x) :
    w.SparesSettings x ∧ w.Extends x ∧ x.embedder.running = w.embedder.running ∧
      Notified w c key value outcome x := by
  rw [notify_apply] at ended
  unfold Notified
  split at ended
  next none =>
    cases ended
    exact ⟨⟨fun _ _ _ => rfl, fun _ _ _ => rfl⟩, .refl _, rfl, World.direct_of_same rfl⟩
  next path =>
    cases ended
    refine ⟨⟨fun d _ k => ?_, fun _ _ _ => rfl⟩, ?_, rfl, World.direct_of_same rfl, ?_⟩
    · rw [World.override_updateContext]
      split <;> rfl
    · exact World.Extends.updateContext _ c _ (.of_same rfl rfl rfl rfl rfl rfl)
    · rw [World.context_updateContext, if_pos ⟨rfl, there⟩]
  next k callback =>
    obtain ⟨ending, v, same, course, direct⟩ :=
      nests.answered (.settingChanged k c value) sound.ready
    cases same.symm.trans ended
    -- the two moments of the call are all that happens directly, so the observer ran between them
    have told := spared _ _ direct
    refine ⟨⟨told.overrides, told.defaults⟩, ?_, course.running, ?_⟩
    · exact (w.extends_note _).trans (course.extends.trans (v.extends_note _))
    · rw [direct]
      rfl

end Observed

structure Deed.Turns (d : Deed) (w w' : World τ) : Prop where
  overrides : ∀ c, w.contexts.has c → ∀ key,
    w'.override c key = (d.override? c key).getD (w.override c key)
  defaults : ∀ s, w.scopes.has s → ∀ key,
    w'.provided s key = (d.provided? s key).or (w.provided s key)

theorem Deed.turns_of_spares {d : Deed} {w w' : World τ} (spares : w.SparesSettings w')
    (overrides : ∀ c, w.contexts.has c → ∀ key, d.override? c key = none)
    (defaults : ∀ s, w.scopes.has s → ∀ key, d.provided? s key = none) : d.Turns w w' where
  overrides c there key := by
    rw [overrides c there key]
    exact spares.overrides c there key
  defaults s there key := by
    rw [defaults s there key]
    exact spares.defaults s there key

section Requests

variable {h : Host (Ledger σ)} (nests : h.Nests) {c : ContextId} {key : Bytes} {w u : Recorded σ}
  (sound : w.Sound) (there : w.contexts.has c)
include nests sound there

theorem set_turns {v : Value} {outcome : Except Signal (Option Bytes)}
    (ended : set h c key v w = (outcome, u)) (spared : SparedBetween w u) :
    (Deed.mk (.set c key v) (w.textOf v) outcome.isOk).Turns w u ∧
      Notified w c key (some (w.textOf v)) (outcome.map fun _ => ()) u ∧
      ∀ previous, outcome = .ok previous → previous = w.visible c key := by
  rw [set_apply] at ended
  rcases told : notify h c key (some (w.textOf v)) w with ⟨signal | _, x⟩ <;> rw [told] at ended <;>
    cases ended
  case error =>
    obtain ⟨spares, -, -, notified⟩ := notify_once nests sound there told spared
    exact ⟨Deed.turns_of_spares spares (fun _ _ _ => rfl) fun _ _ _ => rfl, notified, nofun⟩
  case ok =>
    -- what is stored is not on record
    have direct : w.direct (x.storeSetting c key (w.textOf v)) = w.direct x :=
      World.direct_congr rfl rfl
    unfold SparedBetween at spared
    rw [direct] at spared
    obtain ⟨spares, later, -, notified⟩ := notify_once nests sound there told spared
    have known := (later.contexts c there).1
    refine ⟨⟨fun d present k => ?_, spares.defaults⟩, ?_, fun previous same => ?_⟩
    · rw [World.override_storeSetting known, spares.overrides d present k]
      show _ = (if c = d ∧ key = k then some (some (w.textOf v)) else none).getD _
      split <;> rfl
    · unfold Notified at notified ⊢
      split at notified
      next => exact direct.trans notified
      next =>
        refine ⟨direct.trans notified.1, ?_⟩
        rw [World.storeSetting, World.context_updateContext, if_pos ⟨rfl, known⟩]
        exact notified.2
      next =>
        rw [direct]
        exact notified
    · cases same
      rfl

theorem restore_turns {outcome : Except Signal Unit} (ended : restore h c key w = (outcome, u))
    (spared : SparedBetween w u) :
    (Deed.mk (.restore c key) [] outcome.isOk).Turns w u ∧
      Notified w c key (u.visible c key) outcome u := by
  have dropped : w.Extends (w.dropSetting c key) :=
    World.Extends.updateContext _ c _ (.of_same rfl rfl rfl rfl rfl rfl)
  have known := (dropped.contexts c there).1
  have direct : (w.dropSetting c key).direct u = w.direct u := World.direct_congr rfl rfl
  unfold SparedBetween at spared
  rw [← direct] at spared
  rw [restore_apply] at ended
  have kept : (w.dropSetting c key).Sound :=
    sound.updateContext c _ dropped fun there => there.of_holdings rfl rfl
  obtain ⟨spares, later, -, notified⟩ := notify_once nests kept known ended spared
  have override (d : ContextId) (present : w.contexts.has d) (k : Bytes) :
      u.override d k = if c = d ∧ key = k then none else w.override d k := by
    rw [spares.overrides d (dropped.contexts d present).1, World.override_dropSetting there]
  refine ⟨⟨fun d present k => ?_, spares.defaults⟩, ?_⟩
  · rw [override d present]
    show _ = (if c = d ∧ key = k then some none else none).getD _
    split <;> rfl
  · -- the observer is told what is visible before it is called, and leaves that alone
    have visible : u.visible c key = (w.dropSetting c key).visible c key := by
      have scope : (u.context c).scope = ((w.dropSetting c key).context c).scope :=
        (later.contexts c known).2.scope
      unfold World.visible
      rw [scope, spares.overrides c known, spares.defaults _ (kept.housed c known)]
    rw [visible]
    unfold Notified at notified ⊢
    rw [direct] at notified
    exact notified

end Requests

theorem setDefault_turns {s : ScopeId} {key : Bytes} {v : Value} {w u : World τ}
    {outcome : Except Signal Unit} (there : w.scopes.has s)
    (ended : ScopeRegistry.setDefault s key v w = (outcome, u)) :
    (Deed.mk (.setDefault s key v) (w.textOf v) outcome.isOk).Turns w u := by
  rw [ScopeRegistry.setDefault, bind_ok (w.textOf_apply v)] at ended
  cases ended
  refine ⟨fun _ _ _ => rfl, fun t _ k => ?_⟩
  show ((w.scopes.modify s fun x => { x with defaults := x.defaults.insert key (w.textOf v) }).get
    t).defaults.get? k = (if s = t ∧ key = k then some (w.textOf v) else none).or _
  rw [Pool.get_modify]
  by_cases here : s = t
  · rw [if_pos ⟨here, there⟩, Table.get?_insert]
    simp only [here, true_and, eq_comm (a := k)]
    split <;> rfl
  · rw [if_neg (here ·.1), if_neg (here ·.1)]
    rfl

theorem Request.turns {h : Host (Ledger σ)} (nests : h.Nests) (r : Request) {w u : Recorded σ}
    (sound : w.Sound) {outcome : Except Signal r.operation.Result}
    (ended : r.operation.request h (w.begin r.operation) = (outcome, u))
    (spared : SparedBetween (w.begin r.operation) u) : (r.deed w outcome.isOk).Turns w u := by
  have begun := sound.begin r.operation
  unfold Operation.request at ended
  split at ended
  next grounded =>
    cases r with
    | set c key v =>
      have there : w.contexts.has c := (Bool.and_eq_true_iff.1 grounded).1
      obtain ⟨turns, -, -⟩ := set_turns nests begun there ended spared
      exact ⟨turns.overrides, turns.defaults⟩
    | restore c key =>
      have there : w.contexts.has c := (Bool.and_eq_true_iff.1 grounded).1
      obtain ⟨turns, -⟩ := restore_turns nests begun there ended spared
      exact ⟨turns.overrides, turns.defaults⟩
    | setDefault s key v =>
      have turns := setDefault_turns (w := w.begin (.setDefault s key v)) grounded ended
      exact ⟨turns.overrides, turns.defaults⟩
  next absent =>
    cases ended
    refine Deed.turns_of_spares ⟨fun _ _ _ => rfl, fun _ _ _ => rfl⟩ (fun d there k => ?_)
      fun _ _ _ => by cases r <;> rfl
    cases r with
    | set | setDefault => rfl
    | restore c key =>
      -- a refused request counts as a deed, but its context is not there to have settings
      refine if_neg fun same => absent ?_
      show (w.contexts.has c && true) = true
      rw [same.1, there]
      rfl

section Told

variable {h : Host (Ledger σ)} (nests : h.Nests) {w w' : Recorded σ} {past : List Deed}
  (history : History h w past w') (sound : w.Sound)
include nests history sound

theorem History.later : w.Extends w' ∧ w'.Sound := by
  induction history with
  | start => exact ⟨.refl _, sound⟩
  | @asked _ v u _ r outcome ended _ ih =>
    have course := Operation.request_within nests.follows ih.2.ready r.operation
    rw [ended] at course
    exact ⟨ih.1.trans ((v.extends_begin _).trans (course.extends.trans (u.extends_finish _ _ _))),
      (course.sound (ih.2.begin _)).finish _ _ _⟩
  | aside _ later sound' _ ih => exact ⟨ih.1.trans later, sound'⟩

theorem History.override {c : ContextId} (there : w.contexts.has c) (key : Bytes) :
    w'.override c key = (last? (·.override? c key) past).getD (w.override c key) := by
  induction history with
  | start => rfl
  | asked before r ended spared ih =>
    obtain ⟨later, sound'⟩ := before.later nests sound
    have turns := r.turns nests sound' ended spared
    rw [last?_concat, Option.getD_or, ← ih]
    exact turns.overrides c (later.contexts c there).1 key
  | aside before _ _ spares ih =>
    rw [← ih]
    exact spares.overrides c ((before.later nests sound).1.contexts c there).1 key

theorem History.provided {s : ScopeId} (there : w.scopes.has s) (key : Bytes) :
    w'.provided s key = (last? (·.provided? s key) past).or (w.provided s key) := by
  induction history with
  | start => rfl
  | asked before r ended spared ih =>
    obtain ⟨later, sound'⟩ := before.later nests sound
    have turns := r.turns nests sound' ended spared
    rw [last?_concat, Option.or_assoc, ← ih]
    exact turns.defaults s (later.scopes s there).1 key
  | aside before _ _ spares ih =>
    rw [← ih]
    exact spares.defaults s ((before.later nests sound).1.scopes s there).1 key

end Told

def deeds (h : Host (Ledger σ)) : Recorded σ → List Request → List Deed
  | _, [] => []
  | w, r :: rest =>
    let (outcome, u) := r.operation.request h (w.begin r.operation)
    r.deed w outcome.isOk :: deeds h (u.finish w.embedder.running r.operation outcome) rest

section Observers

variable {h : Host (Ledger σ)} (nests : h.Nests)
  (spares : ∀ k c value (w : Recorded σ), w.SparesSettings (h.settingChanged k c value w).2)
include nests spares

theorem notify_spared {c : ContextId} {key : Bytes} {value : Option Bytes} {w x : Recorded σ}
    {outcome : Except Signal Unit} (sound : w.Sound)
    (ended : notify h c key value w = (outcome, x)) : SparedBetween w x := by
  intro m m' between
  rw [notify_apply] at ended
  -- only a callback is on record: without one there are no two moments
  split at ended
  next =>
    cases ended
    cases (World.direct_of_same (v := w) rfl).symm.trans between
  next =>
    cases ended
    cases (World.direct_of_same (v := w) rfl).symm.trans between
  next k _ =>
    obtain ⟨_, v, same, -, direct⟩ := nests.answered (.settingChanged k c value) sound.ready
    have kept := spares k c value w
    rw [show h.settingChanged k c value w = _ from same] at kept
    cases same.symm.trans ended
    cases direct.symm.trans between
    exact ⟨kept.overrides, kept.defaults⟩

theorem Request.spared (r : Request) {w u : Recorded σ} (sound : w.Sound)
    {outcome : Except Signal r.operation.Result}
    (ended : r.operation.request h (w.begin r.operation) = (outcome, u)) :
    SparedBetween (w.begin r.operation) u := by
  have silent {v : Recorded σ} (same : u.embedder.journal = v.embedder.journal) :
      SparedBetween v u := by
    intro m m' between
    cases (World.direct_of_same same).symm.trans between
  unfold Operation.request at ended
  split at ended
  next =>
    cases r with
    | set c key v =>
      replace ended : Settings.set h c key v _ = _ := ended
      rw [set_apply] at ended
      have begun := sound.begin (.act c (.setSetting key v))
      rcases told : notify h c key (some ((w.begin (.act c (.setSetting key v))).textOf v))
        (w.begin (.act c (.setSetting key v))) with ⟨_ | _, x⟩ <;> rw [told] at ended <;>
        cases ended
      · exact notify_spared nests spares begun told
      · intro m m' between
        refine notify_spared nests spares begun told m m' ?_
        rw [← between]
        exact World.direct_congr rfl rfl
    | restore c key =>
      replace ended : Settings.restore h c key _ = _ := ended
      rw [restore_apply] at ended
      intro m m' between
      refine notify_spared nests spares ?_ ended m m' ?_
      · exact (sound.begin _).updateContext c _
          (World.Extends.updateContext _ c _ (.of_same rfl rfl rfl rfl rfl rfl))
          fun there => there.of_holdings rfl rfl
      · rw [← between]
        exact World.direct_congr rfl rfl
    | setDefault s key v =>
      replace ended : ScopeRegistry.setDefault s key v _ = _ := ended
      rw [ScopeRegistry.setDefault, bind_ok (World.textOf_apply _ v)] at ended
      cases ended
      exact silent rfl
  next =>
    cases ended
    exact silent rfl

theorem History.each {w v : Recorded σ} {past : List Deed} (sound : w.Sound)
    (history : History h w past v) (requests : List Request) :
    History h w (past ++ deeds h v requests)
      ((Code.each () (requests.map (·.operation)) : Code σ Unit).run h v).2 := by
  induction requests generalizing past v with
  | nil =>
    rw [deeds, List.append_nil]
    exact history
  | cons r rest ih =>
    rcases ended : r.operation.request h (v.begin r.operation) with ⟨outcome, u⟩
    have spared := r.spared nests spares (history.later nests sound).2 ended
    have onward := ih (history.asked r ended spared)
    rw [deeds, List.map_cons, Code.each, Code.run, ended]
    rwa [List.append_assoc] at onward

end Observers

theorem inSection_iff (p key : Bytes) :
    inSection p key ↔ p = [] ∨ ∃ rest, key = p ++ Bytes.ofString "." ++ rest := by
  rw [inSection, Bool.or_eq_true, List.isEmpty_iff, Bytes.startsWith, List.isPrefixOf_iff_prefix]
  exact or_congr_right ⟨fun ⟨rest, same⟩ => ⟨rest, same.symm⟩, fun ⟨rest, same⟩ => ⟨rest, same.symm⟩⟩

theorem values_apply (c : ContextId) (p : Bytes) (w : World τ) : ∃ t : Table Bytes,
    values c p true w = (.ok t, w) ∧ ∀ key value, t.get? key = some value ↔
      (p = [] ∨ ∃ rest, key = p ++ Bytes.ofString "." ++ rest) ∧
        w.visible c key = some value := by
  refine ⟨_, rfl, fun key value => ?_⟩
  rw [← inSection_iff]
  show Table.lookup key (((w.scopeOf c).defaults.overlay (w.context c).overrides).entries.filter
    (inSection p ·.1)) = some value ↔ _
  rw [Table.lookup_filter]
  have shown : Table.lookup key ((w.scopeOf c).defaults.overlay (w.context c).overrides).entries =
    w.visible c key := Table.get?_overlay ..
  rw [shown, Option.ite_none_right_eq_some]

end Settings

open Settings

/-- Settings are an overlay on live defaults. When requests are made one after another and observers
leave the settings alone, but may unwind, a context shows the text that was last set in it and not
restored since, or else what its scope provides, which is the last text that was set there. To set
returns what has been visible before, and changes nothing that is visible if the observer unwinds.
To set or to restore tells the observer once, with the new text or with what is visible afterwards.
The settings of a section are those that are visible. -/
theorem Script.settings_overlay (s : Script σ) (depth : Nat) {w : Recorded σ} (sound : w.Sound) :
    ((∀ k c value (v : Recorded σ),
        v.SparesSettings ((s.host depth).settingChanged k c value v).2) →
      ∀ requests : List Request, History (s.host depth) w (deeds (s.host depth) w requests)
        ((Code.each () (requests.map (·.operation)) : Code σ Unit).run (s.host depth) w).2) ∧
    ∀ (w' : Recorded σ) (past : List Settings.Deed), History (s.host depth) w past w' →
      (∀ c, w.contexts.has c → ∀ key, lookup c key w' =
        (.ok (((last? (·.override? c key) past).getD (w.override c key)).or
          (w'.provided (w'.context c).scope key)), w')) ∧
      (∀ t, w.scopes.has t → ∀ key, w'.provided t key =
        (last? (·.provided? t key) past).or (w.provided t key)) ∧
      (∀ c, w'.contexts.has c → ∀ key v outcome u,
        set (s.host depth) c key v (w'.begin (.act c (.setSetting key v))) = (outcome, u) →
        SparedBetween (w'.begin (.act c (.setSetting key v))) u →
        Notified (w'.begin (.act c (.setSetting key v))) c key (some (w'.textOf v))
          (outcome.map fun _ => ()) u ∧
        (∀ previous, outcome = .ok previous → lookup c key w' = (.ok previous, w')) ∧
        ∀ signal, outcome = .error signal → ∀ d, w'.contexts.has d → ∀ k,
          (lookup d k u).1 = (lookup d k w').1) ∧
      (∀ c, w'.contexts.has c → ∀ key outcome u,
        restore (s.host depth) c key (w'.begin (.act c (.restoreSetting key))) = (outcome, u) →
        SparedBetween (w'.begin (.act c (.restoreSetting key))) u →
        ∃ value, lookup c key u = (.ok value, u) ∧
          Notified (w'.begin (.act c (.restoreSetting key))) c key value outcome u) ∧
      ∀ c p, ∃ t : Table Bytes, values c p true w' = (.ok t, w') ∧
        ∀ key value, t.get? key = some value ↔
          (p = [] ∨ ∃ rest, key = p ++ Bytes.ofString "." ++ rest) ∧
            lookup c key w' = (.ok (some value), w') := by
  have nests := s.host_nests depth
  refine ⟨fun spares requests => ?_, fun w' past history => ?_⟩
  · exact History.each nests spares sound .start requests
  obtain ⟨later, sound'⟩ := history.later nests sound
  refine ⟨fun c there key => ?_, fun t there key => history.provided nests sound there key,
    fun c there key v outcome u ended spared => ?_,
    fun c there key outcome u ended spared => ?_, fun c p => ?_⟩
  · rw [World.lookup_visible, World.visible, history.override nests sound there]
  · obtain ⟨turns, notified, returned⟩ := set_turns nests (sound'.begin _) there ended spared
    refine ⟨notified, fun previous same => ?_, fun signal same d present k => ?_⟩
    · rw [returned previous same]
      exact w'.lookup_visible c key
    · -- a deed that has not been completed says nothing about any key
      cases same
      have ready := (sound'.begin (.act c (.setSetting key v))).ready.at there (.inr ⟨_, rfl⟩)
      have course := (set_follows nests.follows c key v).course ready ended
      have scope : (u.context d).scope = (w'.context d).scope :=
        (course.extends.contexts d present).2.scope
      have kept : u.override d k = w'.override d k := turns.overrides d present k
      have provided : u.provided (w'.context d).scope k = w'.provided (w'.context d).scope k :=
        turns.defaults _ (sound'.housed d present) k
      rw [u.lookup_visible, w'.lookup_visible, World.visible, World.visible, scope, kept, provided]
  · obtain ⟨-, notified⟩ := restore_turns nests (sound'.begin _) there ended spared
    exact ⟨_, u.lookup_visible c key, notified⟩
  · obtain ⟨t, listed, each⟩ := values_apply c p w'
    refine ⟨t, listed, fun key value => ?_⟩
    rw [each key value, w'.lookup_visible c key]
    exact and_congr_right fun _ => ⟨fun same => by rw [same], fun same =>
      Except.ok.inj (Prod.mk.inj same).1⟩

def refusing : Script Unit where
  patience := 1
  code
    | .settingChanged _ _ value =>
      .done (if value = some (Bytes.ofString "bad") then .error .exhausted else .ok ())
    | _ => .done (.error .exhausted)

def observed : Recorded Unit :=
  ((Code.each () (oneContext ++ [.observe "k" (some ⟨0⟩)]) : Code Unit Unit).run (refusing.host 1)
    (.start (FileTree.make "/") ())).2

def refusedRequests : List Request :=
  [.set ⟨0⟩ "k" (.text "a"), .set ⟨0⟩ "k" (.text "bad"), .setDefault ⟨0⟩ "k" (.text "d")]

theorem settings_overlay_refused : ∃ w',
    History (refusing.host 1) observed (deeds (refusing.host 1) observed refusedRequests) w' ∧
    (deeds (refusing.host 1) observed refusedRequests).map (·.isCompleted) = [true, false, true] ∧
    lookup ⟨0⟩ "k" w' = (.ok (some "a"), w') ∧
    ∃ signal u, set (refusing.host 1) ⟨0⟩ "k" (.text "bad")
        (w'.begin (.act ⟨0⟩ (.setSetting "k" (.text "bad")))) = (.error signal, u) ∧
      (lookup ⟨0⟩ "k" u).1 = .ok (some "a") := by
  have sound : observed.Sound := (refusing.course 1 _ _ _).sound (World.start_sound _ _)
  obtain ⟨histories, told⟩ := refusing.settings_overlay 1 sound
  have spares : ∀ k c value (v : Recorded Unit),
      v.SparesSettings ((refusing.host 1).settingChanged k c value v).2 := fun _ _ _ _ =>
    ⟨fun _ _ _ => rfl, fun _ _ _ => rfl⟩
  have history := histories spares refusedRequests
  obtain ⟨shown, -, again, -⟩ := told _ _ history
  have visible := shown ⟨0⟩ (by decide +kernel) "k"
  have last : last? (·.override? ⟨0⟩ "k") (deeds (refusing.host 1) observed refusedRequests) =
    some (some (Bytes.ofString "a")) := by decide +kernel
  rw [last] at visible
  refine ⟨_, history, by decide +kernel, visible, ?_⟩
  generalize at_end : ((Code.each () (refusedRequests.map (·.operation)) : Code Unit Unit).run
    (refusing.host 1) observed).2 = w' at visible again history
  have there : w'.contexts.has ⟨0⟩ := by
    rw [← at_end]
    decide +kernel
  have refused : (set (refusing.host 1) ⟨0⟩ "k" (.text "bad")
      (w'.begin (.act ⟨0⟩ (.setSetting "k" (.text "bad"))))).1.isOk = false := by
    rw [← at_end]
    decide +kernel
  rcases ended : set (refusing.host 1) ⟨0⟩ "k" (.text "bad")
    (w'.begin (.act ⟨0⟩ (.setSetting "k" (.text "bad")))) with ⟨signal | previous, u⟩
  · have grounded : (Operation.act ⟨0⟩ (.setSetting "k" (.text "bad"))).isGrounded
        (w'.begin (.act ⟨0⟩ (.setSetting "k" (.text "bad")))) := Bool.and_eq_true_iff.2 ⟨there, rfl⟩
    have nests := refusing.host_nests 1
    have spared : SparedBetween (w'.begin (.act ⟨0⟩ (.setSetting "k" (.text "bad")))) u :=
      (Request.set ⟨0⟩ "k" (.text "bad")).spared nests spares (history.later nests sound).2
        ((if_pos grounded).trans ended)
    obtain ⟨-, -, unchanged⟩ := again ⟨0⟩ there "k" (.text "bad") _ u ended spared
    exact ⟨signal, u, rfl, (unchanged signal rfl ⟨0⟩ there "k").trans (congrArg Prod.fst visible)⟩
  · rw [ended] at refused
    cases refused

end ScriptHost
