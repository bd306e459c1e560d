import ScriptHost.Proofs.Output.Plumbing

set_option autoImplicit false

namespace ScriptHost

variable {σ τ : Type}

inductive Removal where
  | stopped
  | discarded
  | dropped
deriving DecidableEq

inductive Tap where
  | started
  | took (text : Bytes)
  | called (chunk : Bytes) (mode : OutputMode) (answer : Option Bytes)
  | passed (text : Bytes)
  | removed (how : Removal) (held : Bytes)
deriving DecidableEq

/-- What happens to the output of the contexts. Text comes from an operation or from a buffer. -/
inductive Flow where
  | started (c : ContextId) (b : BufferId)
  | took (c : ContextId) (place : Level) (text : Bytes) (source : Option BufferId)
  | called (c : ContextId) (b : BufferId) (chunk : Bytes) (mode : OutputMode) (answer : Option Bytes)
  | removed (c : ContextId) (b : BufferId) (how : Removal) (held : Bytes)
deriving DecidableEq

namespace Flow

def tap? (c : ContextId) (b : BufferId) : Flow → Option Tap
  | started e d => if e = c ∧ d = b then some .started else none
  | took e place text source =>
    if e = c ∧ place = .buffer b then some (.took text)
    else if e = c ∧ source = some b then some (.passed text)
    else none
  | called e d chunk mode answer =>
    if e = c ∧ d = b then some (.called chunk mode answer) else none
  | removed e d how held => if e = c ∧ d = b then some (.removed how held) else none

def taps (c : ContextId) (b : BufferId) (flows : List Flow) : List Tap := flows.filterMap (tap? c b)

@[simp] theorem taps_nil (c : ContextId) (b : BufferId) : taps c b [] = [] := rfl

@[simp] theorem taps_append (c : ContextId) (b : BufferId) (flows more : List Flow) :
    taps c b (flows ++ more) = taps c b flows ++ taps c b more :=
  List.filterMap_append ..

section Removed

variable {c : ContextId} {b : BufferId} {bs : List BufferId} {how : BufferId → Removal}
  {held : BufferId → Bytes}

theorem taps_removed (c : ContextId) (inside : b ∈ bs) (how : BufferId → Removal)
    (held : BufferId → Bytes) : ∃ rest,
      taps c b (bs.map fun d => removed c d (how d) (held d)) = .removed (how b) (held b) :: rest := by
  induction bs with
  | nil => cases inside
  | cons d bs ih =>
    by_cases here : d = b
    · subst here
      exact ⟨_, List.filterMap_cons_some (if_pos ⟨rfl, rfl⟩)⟩
    · obtain ⟨rest, same⟩ := ih ((List.mem_cons.1 inside).resolve_left (Ne.symm here))
      have silent : tap? c b (removed c d (how d) (held d)) = none :=
        if_neg fun both => here both.2
      exact ⟨rest, (List.filterMap_cons_none silent).trans same⟩

theorem taps_removed_of_not_mem {e : ContextId} (outside : e = c → b ∉ bs) :
    taps c b (bs.map fun d => removed e d (how d) (held d)) = [] := by
  rw [taps, List.filterMap_eq_nil_iff, List.forall_mem_map]
  intro d member
  have apart : ¬ (e = c ∧ d = b) := fun both => outside both.1 (both.2 ▸ member)
  exact if_neg apart

theorem taps_ending {e : ContextId} {d : BufferId} {held : Bytes} (apart : e = c → d ≠ b)
    (ending : List Removal) :
    taps c b (ending.map fun how => removed e d how held) = [] := by
  rw [taps, List.filterMap_eq_nil_iff, List.forall_mem_map]
  have other : ¬ (e = c ∧ d = b) := fun both => apart both.1 both.2
  exact fun how _ => if_neg other

end Removed

end Flow

namespace Tap

def isRemoval : Tap → Bool
  | removed .. => true
  | _ => false

def written (taps : List Tap) : Bytes := taps.flatMap fun
  | took text => text
  | _ => []

def passedOn (taps : List Tap) : Bytes := taps.flatMap fun
  | passed text => text
  | _ => []

def modes (taps : List Tap) : List OutputMode := taps.filterMap fun
  | called _ mode _ => some mode
  | _ => none

def chunks (taps : List Tap) : Bytes := taps.flatMap fun
  | called chunk _ _ => chunk
  | _ => []

/-- What has been given away to the handler. A handler that unwinds while it cleans takes nothing. -/
def given (taps : List Tap) : Bytes := taps.flatMap fun
  | called chunk mode answer => if mode.clean ∧ answer = none then [] else chunk
  | _ => []

def answers (taps : List Tap) : Bytes := taps.flatMap fun
  | called _ mode answer => if mode.clean then [] else answer.getD []
  | _ => []

def draining (chunk : Bytes) (mode : OutputMode) (outcome : Except Signal Bytes) : List Tap :=
  called chunk mode outcome.toOption ::
    match outcome with
    | .ok text => if text.isEmpty then [] else [passed text]
    | .error _ => []

structure Protocol (taps : List Tap) (held : Bytes) (isStopped : Prop) : Prop where
  conserved : given taps ++ held = written taps
  start : ∀ i mode, (modes taps)[i]? = some mode → (mode.start = true ↔ i = 0)
  final : ∀ i mode, (modes taps)[i]? = some mode →
    (mode.final = true ↔ isStopped ∧ i + 1 = (modes taps).length)
  finished : isStopped → modes taps ≠ []
  passed : passedOn taps = answers taps

section Lists

variable (taps more : List Tap)

@[simp] theorem written_append : written (taps ++ more) = written taps ++ written more :=
  List.flatMap_append ..

@[simp] theorem passedOn_append : passedOn (taps ++ more) = passedOn taps ++ passedOn more :=
  List.flatMap_append ..

@[simp] theorem modes_append : modes (taps ++ more) = modes taps ++ modes more :=
  List.filterMap_append ..

@[simp] theorem given_append : given (taps ++ more) = given taps ++ given more :=
  List.flatMap_append ..

@[simp] theorem answers_append : answers (taps ++ more) = answers taps ++ answers more :=
  List.flatMap_append ..

end Lists

theorem given_eq_chunks {taps : List Tap}
    (returned : ∀ chunk mode, called chunk mode none ∈ taps → mode.clean = false) :
    given taps = chunks taps := by
  induction taps with
  | nil => rfl
  | cons t rest ih =>
    have rest := ih fun chunk mode member => returned chunk mode (List.mem_cons_of_mem _ member)
    rw [given, chunks, List.flatMap_cons, List.flatMap_cons] at *
    rw [rest]
    congr 1
    cases t with
    | called chunk mode answer =>
      refine if_neg fun unwound => ?_
      have plain := returned chunk mode (unwound.2 ▸ List.mem_cons_self)
      exact absurd unwound.1 (by simp [plain])
    | _ => rfl

section Draining

variable (chunk : Bytes) (mode : OutputMode) (outcome : Except Signal Bytes)

theorem draining_cases : ∃ rest, draining chunk mode outcome =
    called chunk mode outcome.toOption :: rest ∧ (rest = [] ∧ outcome.toOption.getD [] = [] ∨
      ∃ text, outcome = .ok text ∧ rest = [passed text]) := by
  rcases outcome with signal | text
  · exact ⟨_, rfl, .inl ⟨rfl, rfl⟩⟩
  · refine ⟨_, rfl, ?_⟩
    dsimp only
    split
    next empty => exact .inl ⟨rfl, List.isEmpty_iff.1 empty⟩
    next => exact .inr ⟨text, rfl, rfl⟩

theorem written_draining : written (draining chunk mode outcome) = [] := by
  obtain ⟨rest, same, ⟨rfl, -⟩ | ⟨text, -, rfl⟩⟩ := draining_cases chunk mode outcome <;>
    simp [same, written]

theorem modes_draining : modes (draining chunk mode outcome) = [mode] := by
  obtain ⟨rest, same, ⟨rfl, -⟩ | ⟨text, -, rfl⟩⟩ := draining_cases chunk mode outcome <;>
    simp [same, modes]

variable {mode}

theorem given_draining (plain : mode.clean = false) :
    given (draining chunk mode outcome) = chunk := by
  obtain ⟨rest, same, ⟨rfl, -⟩ | ⟨text, -, rfl⟩⟩ := draining_cases chunk mode outcome <;>
    simp [same, given, plain]

theorem passedOn_draining (plain : mode.clean = false) :
    passedOn (draining chunk mode outcome) = answers (draining chunk mode outcome) := by
  obtain ⟨rest, same, ⟨rfl, none⟩ | ⟨text, rfl, rfl⟩⟩ := draining_cases chunk mode outcome
  · simp [same, passedOn, answers, plain, none]
  · simp [same, passedOn, answers, plain, Except.toOption]

theorem isRemoval_draining : ∀ t ∈ draining chunk mode outcome, t.isRemoval = false := by
  obtain ⟨rest, same, ⟨rfl, -⟩ | ⟨text, -, rfl⟩⟩ := draining_cases chunk mode outcome <;>
    simp [same, isRemoval]

end Draining

theorem Protocol.start_empty : Protocol [] [] False where
  conserved := rfl
  start _ _ there := nomatch there
  final _ _ there := nomatch there
  finished := False.elim
  passed := rfl

variable {taps : List Tap} {held : Bytes} {isStopped : Prop}

namespace Protocol

theorem took (protocol : Protocol taps held isStopped) (text : Bytes) :
    Protocol (taps ++ [.took text]) (held ++ text) isStopped := by
  have modes : modes (taps ++ [.took text]) = modes taps := by simp [modes]
  refine ⟨?_, by rw [modes]; exact protocol.start, by rw [modes]; exact protocol.final,
    by rw [modes]; exact protocol.finished, ?_⟩
  · have before := protocol.conserved
    simp [given, written] at before ⊢
    rw [← before, List.append_assoc]
  · have before := protocol.passed
    simpa [passedOn, answers] using before

theorem call (protocol : Protocol taps held False) {more : List Tap} {mode : OutputMode}
    {held' : Bytes} (one : modes more = [mode]) (start : mode.start = true ↔ modes taps = [])
    (conserved : written more = [] ∧ given more ++ held' = held)
    (passed : passedOn more = answers more) :
    Protocol (taps ++ more) held' (mode.final = true) := by
  -- a call is an earlier one or the new one, which is the last
  have place {i : Nat} {other : OutputMode} (there : (modes taps ++ [mode])[i]? = some other) :
      (modes taps)[i]? = some other ∧ i < (modes taps).length ∨
        other = mode ∧ i = (modes taps).length := by
    rcases Nat.lt_trichotomy i (modes taps).length with before | last | beyond
    · rw [List.getElem?_append_left before] at there
      exact .inl ⟨there, before⟩
    · subst last
      simp at there
      exact .inr ⟨there.symm, rfl⟩
    · rw [List.getElem?_eq_none (by simp; omega)] at there
      cases there
  constructor
  · rw [given_append, written_append, conserved.1, List.append_nil, List.append_assoc, conserved.2,
      protocol.conserved]
  · intro i other there
    rw [modes_append, one] at there
    rcases place there with ⟨early, -⟩ | ⟨rfl, rfl⟩
    · exact protocol.start i other early
    · rw [start, List.length_eq_zero_iff]
  · intro i other there
    rw [modes_append, one] at there ⊢
    rw [List.length_append, List.length_singleton]
    rcases place there with ⟨early, before⟩ | ⟨rfl, rfl⟩
    · rw [protocol.final i other early]
      constructor
      next => exact fun both => both.1.elim
      next => exact fun both => by omega
    · simp
  · rw [modes_append, one]
    simp
  · rw [passedOn_append, answers_append, protocol.passed, passed]

theorem mono (protocol : Protocol taps held isStopped) {isStopped' : Prop}
    (same : isStopped ↔ isStopped') : Protocol taps held isStopped' :=
  propext same ▸ protocol

theorem drained (protocol : Protocol taps held False) {mode : OutputMode} {isStarted : Bool}
    (start : mode.start = !isStarted) (started : isStarted = true ↔ modes taps ≠ [])
    (plain : mode.clean = false) (outcome : Except Signal Bytes) :
    Protocol (taps ++ draining held mode outcome) [] (mode.final = true) := by
  refine protocol.call (modes_draining ..) ?_ ⟨written_draining .., ?_⟩ (passedOn_draining held outcome plain)
  · rw [start, Bool.not_eq_true', ← Bool.not_eq_true, started, Decidable.not_not]
  · rw [given_draining held outcome plain, List.append_nil]

theorem cleaned (protocol : Protocol taps held False) {mode : OutputMode} {isStarted : Bool}
    (start : mode.start = !isStarted) (started : isStarted = true ↔ modes taps ≠ [])
    (cleans : mode.clean = true) (answer : Option Bytes) :
    Protocol (taps ++ [.called held mode answer]) (if answer.isSome then [] else held)
      (mode.final = true) := by
  refine protocol.call rfl ?_ ⟨rfl, ?_⟩ ?_
  · rw [start, Bool.not_eq_true', ← Bool.not_eq_true, started, Decidable.not_not]
  · cases answer <;> simp [given, cleans]
  · simp [passedOn, answers, cleans]

end Protocol

structure Heeds (taps : List Tap) (x : Buffer) (isUsed : Prop) : Prop where
  kept : (∀ t ∈ taps, t.isRemoval = false) → Protocol taps x.held False ∧ x.isClosed = false ∧
    (x.isStarted = true ↔ modes taps ≠ []) ∧ isUsed
  ended : ∀ before how held after, taps = before ++ .removed how held :: after →
    (∀ t ∈ before, t.isRemoval = false) → Protocol before held (how = .stopped)

theorem split_append {taps more before after : List Tap} {t : Tap}
    (split : taps ++ more = before ++ t :: after) :
    (∃ rest, taps = before ++ t :: rest) ∨
      ∃ early, before = taps ++ early ∧ more = early ++ t :: after := by
  rcases List.append_eq_append_iff.1 split with ⟨early, same, rest⟩ | ⟨rest, same, tail⟩
  · exact .inr ⟨early, same, rest⟩
  · cases rest with
    | nil => exact .inr ⟨[], by simp [same], tail.symm⟩
    | cons u rest =>
      cases tail
      exact .inl ⟨rest, same⟩

namespace Heeds

variable {more : List Tap} {x y : Buffer} {isUsed isUsed' : Prop}

theorem append (heeds : Heeds taps x isUsed) (quiet : ∀ t ∈ more, t.isRemoval = false)
    (kept : (∀ t ∈ taps, t.isRemoval = false) → Protocol (taps ++ more) y.held False ∧
      y.isClosed = false ∧ (y.isStarted = true ↔ modes (taps ++ more) ≠ []) ∧ isUsed') :
    Heeds (taps ++ more) y isUsed' := by
  refine ⟨fun all => kept fun t member => all t (List.mem_append_left _ member),
    fun before how held after split early => ?_⟩
  rcases split_append split with ⟨rest, same⟩ | ⟨first, -, same⟩
  · exact heeds.ended before how held rest same early
  · exact absurd (quiet (.removed how held) (by simp [same])) (by simp [isRemoval])

theorem remove (heeds : Heeds taps x isUsed) {how : Removal} {held : Bytes} {after : List Tap}
    (quiet : ∀ t ∈ more, t.isRemoval = false)
    (ended : (∀ t ∈ taps, t.isRemoval = false) → Protocol (taps ++ more) held (how = .stopped)) :
    Heeds (taps ++ (more ++ .removed how held :: after)) y isUsed' := by
  refine ⟨fun all => ?_, fun before how' held' after' split early => ?_⟩
  · exact absurd (all (.removed how held) (by simp)) (by simp [isRemoval])
  rcases split_append split with ⟨rest, same⟩ | ⟨first, rfl, tail⟩
  · exact heeds.ended before how' held' rest same early
  rcases split_append tail with ⟨rest, same⟩ | ⟨second, rfl, last⟩
  · exact absurd (quiet (.removed how' held') (by simp [same])) (by simp [isRemoval])
  cases second with
  | cons t second =>
    cases last
    exact absurd (early (.removed how held) (by simp)) (by simp [isRemoval])
  | nil =>
    cases last
    rw [List.append_nil]
    exact ended fun t member => early t (List.mem_append_left _ member)

end Heeds

end Tap

end ScriptHost
