import ScriptHost.Proofs.Cache.Acceptance

set_option autoImplicit false

namespace ScriptHost

namespace Envelope

structure Vouches (e : Envelope) (name blob : Bytes) : Prop where
  read : decode blob = some e
  version : e.version = currentVersion
  payload : digest32 (Sha256.digest e.payload) = e.payloadDigest
  name : e.name = name

variable {e f : Envelope} {name blob : Bytes}

theorem Vouches.unique (vouches : e.Vouches name blob) (others : f.Vouches name blob) : e = f :=
  Option.some.inj (vouches.read.symm.trans others.read)

theorem verify_ok (version : e.version = currentVersion)
    (payload : digest32 (Sha256.digest e.payload) = e.payloadDigest) : e.verify = .ok () := by
  simp [verify, version, payload]

theorem verify_error (broken : e.version = currentVersion →
    digest32 (Sha256.digest e.payload) ≠ e.payloadDigest) : ∃ c, e.verify = .error c := by
  by_cases version : e.version = currentVersion
  next => exact ⟨_, by rw [verify, if_neg (by simp [version]), if_pos (broken version)]⟩
  next => exact ⟨_, by rw [verify, if_pos version]⟩

end Envelope

structure Row.Answers (found : Option Row) (name made : Bytes)
    (answer : Except StoreError (Option Bytes)) : Prop where
  hit : ∀ payload, answer = .ok (some payload) ↔ ∃ row e, found = some row ∧
    Envelope.Vouches e name row.envelope ∧ e.sourceDigest.getD [] = made ∧ e.payload = payload
  miss : answer = .ok none ↔ found = none ∨ ∃ row e, found = some row ∧
    Envelope.Vouches e name row.envelope ∧ e.sourceDigest.getD [] ≠ made
  damaged : ∀ error, answer = .error error → ∃ c, error = .corrupt c

namespace Row.Answers

variable {row : Row} {e : Envelope} {name made : Bytes}

theorem of_absent : Row.Answers none name made (.ok none) where
  hit payload := by simp
  miss := by simp
  damaged := nofun

theorem of_vouches (vouches : e.Vouches name row.envelope) :
    Row.Answers (some row) name made
      (.ok (if e.isFrom made then some e.payload else none)) where
  hit payload := by
    constructor
    · intro found
      split at found
      next same => exact ⟨row, e, rfl, vouches, of_decide_eq_true same, by simpa using found⟩
      next => cases found
    · rintro ⟨_, f, there, others, same, rfl⟩
      obtain rfl := Option.some.inj there
      obtain rfl := vouches.unique others
      rw [if_pos (show e.isFrom made from decide_eq_true same)]
  miss := by
    constructor
    · intro missed
      split at missed
      next => cases missed
      next other => exact .inr ⟨row, e, rfl, vouches, of_decide_eq_false (Bool.eq_false_iff.2 other)⟩
    · rintro (absent | ⟨_, f, there, others, other⟩)
      · cases absent
      · obtain rfl := Option.some.inj there
        obtain rfl := vouches.unique others
        rw [if_neg (by simpa [Envelope.isFrom] using other)]
  damaged := nofun

theorem of_broken (broken : ∀ e : Envelope, ¬ e.Vouches name row.envelope) (c : Corruption) :
    Row.Answers (some row) name made (.error (.corrupt c)) where
  hit payload := ⟨nofun, fun ⟨_, _, same, vouches, _⟩ =>
    (broken _ (Option.some.inj same ▸ vouches)).elim⟩
  miss := ⟨nofun, fun missed => by
    rcases missed with absent | ⟨_, _, same, vouches, -⟩
    · cases absent
    · exact (broken _ (Option.some.inj same ▸ vouches)).elim⟩
  damaged _ same := ⟨c, (Except.error.inj same).symm⟩

end Row.Answers

namespace Database

theorem fetch_congr {rows other : Database} {name : Bytes} (same : rows.get? name = other.get? name)
    (made : Bytes) : rows.fetch name made = other.fetch name made := by
  rw [fetch, fetch, same]

theorem fetch_answers (rows : Database) (name made : Bytes) :
    Row.Answers (rows.get? name) name made (rows.fetch name made) := by
  rw [fetch]
  cases there : rows.get? name with
  | none => exact .of_absent
  | some row =>
    dsimp only
    cases read : Envelope.decode row.envelope with
    | none =>
      exact .of_broken (fun e vouches => by cases read.symm.trans vouches.read) _
    | some e =>
      -- an envelope that vouches for the bytes is the one that is read from them
      have only {f : Envelope} (vouches : f.Vouches name row.envelope) : f = e :=
        Option.some.inj (vouches.read.symm.trans read)
      dsimp only
      by_cases whole : e.version = Envelope.currentVersion ∧
        digest32 (Sha256.digest e.payload) = e.payloadDigest
      next =>
        rw [e.verify_ok whole.1 whole.2]
        dsimp only
        split
        next misplaced =>
          exact .of_broken (fun f vouches => misplaced (only vouches ▸ vouches.name)) _
        next own =>
          have vouches : e.Vouches name row.envelope :=
            ⟨read, whole.1, whole.2, not_not.1 own⟩
          have answers : Row.Answers (some row) name made _ := .of_vouches vouches
          by_cases same : e.isFrom made
          next => rwa [if_pos same] at answers ⊢
          next => rwa [if_neg same] at answers ⊢
      next =>
        obtain ⟨c, failed⟩ := e.verify_error fun version payload => whole ⟨version, payload⟩
        rw [failed]
        refine .of_broken (fun f vouches => whole ?_) c
        obtain rfl := only vouches
        exact ⟨vouches.version, vouches.payload⟩

def replaceEnvelope (rows : Database) (name blob : Bytes) : Database :=
  match rows.get? name with
  | some row => rows.insert name { row with envelope := blob }
  | none => rows

theorem get?_replaceEnvelope (rows : Database) (other blob name : Bytes) :
    (rows.replaceEnvelope other blob).get? name =
      if other = name then (rows.get? name).map ({ · with envelope := blob })
      else rows.get? name := by
  unfold replaceEnvelope
  by_cases same : other = name
  next =>
    subst same
    rw [if_pos rfl]
    cases there : rows.get? other <;> simp [there]
  next =>
    rw [if_neg same]
    cases there : rows.get? other with
    | none => rfl
    | some row => simp [Ne.symm same]

end Database

inductive Deed where
  | edit (e : Edit)
  | replace (name blob : Bytes)

namespace Deed

def isEdit : Deed → Bool
  | edit _ => true
  | replace .. => false

/-- What stands under a name afterwards, if `found` has stood there before. A store takes no put
without a digest. -/
def after (name : Bytes) (found : Option Row) : Deed → Option Row
  | edit (.put p) => if p.name = name ∧ p.sourceDigest ≠ [] then some p.row else found
  | edit (.delete other) => if other = name then none else found
  | edit .purge => none
  | replace other blob => if other = name then found.map ({ · with envelope := blob }) else found

def damages (name : Bytes) (isDamaged : Bool) : Deed → Bool
  | edit (.put p) => isDamaged && !decide (p.name = name ∧ p.sourceDigest ≠ [])
  | edit (.delete other) => isDamaged && !decide (other = name)
  | edit .purge => false
  | replace other _ => isDamaged || decide (other = name)

theorem foldl_after_filter {name : Bytes} {found kept : Option Row} {isDamaged : Bool}
    (same : isDamaged = false → found = kept) (deeds : List Deed)
    (intact : deeds.foldl (damages name) isDamaged = false) :
    deeds.foldl (after name) found = (deeds.filter isEdit).foldl (after name) kept := by
  -- a name that is damaged now need not be in the end: the two rows are only compared as long as it
  -- is not
  induction deeds generalizing found kept isDamaged with
  | nil => exact same intact
  | cons deed rest ih =>
    rw [List.foldl_cons] at intact ⊢
    cases deed with
    | replace other blob =>
      refine ih (fun whole => ?_) intact
      simp only [damages, Bool.or_eq_false_iff, decide_eq_false_iff_not] at whole
      rw [after, if_neg whole.2, same whole.1]
    | edit e =>
      rw [List.filter_cons_of_pos rfl, List.foldl_cons]
      refine ih (fun whole => ?_) intact
      cases e with
      | purge => rfl
      | put p =>
        simp only [damages, Bool.and_eq_false_imp, Bool.not_eq_false', decide_eq_true_eq] at whole
        cases before : isDamaged with
        | false => rw [same before]
        | true => simp only [after, if_pos (whole before)]
      | delete other =>
        simp only [damages, Bool.and_eq_false_imp, Bool.not_eq_false', decide_eq_true_eq] at whole
        cases before : isDamaged with
        | false => rw [same before]
        | true => simp only [after, if_pos (whole before)]

end Deed

namespace Connection

variable {σ : Type} {w : World σ} {s : StoreId}

def replaceEnvelope (s : StoreId) (name blob : Bytes) : Run σ Unit :=
  modify fun w => w.withRows s ((w.rowsOf s).replaceEnvelope name blob)

def befall (s : StoreId) : Deed → Run σ Unit
  | .edit e => do
    let _ ← perform s e
  | .replace name blob => replaceEnvelope s name blob

def endured (s : StoreId) (w : World σ) (deeds : List Deed) : World σ :=
  deeds.foldl (fun w deed => (befall s deed w).2) w

theorem befall_edit (s : StoreId) (e : Edit) (w : World σ) :
    (befall s (.edit e) w).2 = (perform s e w).2 := by
  rw [befall, Run.bind_apply]
  rcases perform s e w with ⟨_ | _, _⟩ <;> rfl

structure Holds (w : World σ) (s : StoreId) (found : Bytes → Option Row) : Prop extends
    IsOpen w s where
  rows : ∀ name, (w.rowsOf s).get? name = found name

theorem IsOpen.holds_withRows (opened : IsOpen w s) (rows : Database) :
    Holds (w.withRows s rows) s rows.get? :=
  ⟨opened.withRows rows, fun _ => by rw [opened.rowsOf_withRows]⟩

theorem Holds.congr {found other : Bytes → Option Row} (holds : Holds w s found)
    (same : ∀ name, found name = other name) : Holds w s other :=
  ⟨holds.toIsOpen, fun name => (holds.rows name).trans (same name)⟩

theorem IsOpen.befall (opened : IsOpen w s) (deed : Deed) :
    Holds (befall s deed w).2 s fun name => deed.after name ((w.rowsOf s).get? name) := by
  cases deed with
  | replace other blob =>
    refine (opened.holds_withRows ((w.rowsOf s).replaceEnvelope other blob)).congr fun name => ?_
    rw [Database.get?_replaceEnvelope, Deed.after]
  | edit e =>
    rw [befall_edit]
    cases e with
    | purge =>
      rw [perform, Run.bind_ok opened.purge_eq]
      exact opened.holds_withRows .empty
    | put p =>
      have later := opened.withClock p.time
      have rows := opened.rowsOf_withClock p.time
      have now : putOf (w.withClock s p.time) s p.name p.sourceDigest p.payload = p := by
        rw [putOf, opened.get_withClock]
      rw [perform, Run.bind_ok (setClock_eq w s p.time)]
      -- a put without a digest is refused, and `Deed.after` passes over it as well
      by_cases missing : p.sourceDigest = []
      next =>
        rw [missing, later.save_missing]
        exact ⟨later, fun name => by simp [Deed.after, missing, rows]⟩
      next =>
        rw [later.save_ok missing, saved, now, rows]
        refine (later.holds_withRows _).congr fun name => ?_
        rw [Edit.get?_applied]
        simp [Edit.touches, Deed.after, missing]
    | delete other =>
      by_cases there : (w.rowsOf s).contains other
      next =>
        rw [perform, opened.delete_ok there]
        refine (opened.holds_withRows _).congr fun name => ?_
        rw [Edit.get?_applied]
        simp [Edit.touches, Deed.after]
      next =>
        rw [perform, opened.delete_missing there]
        have absent : (w.rowsOf s).get? other = none := by simpa [Table.contains] using there
        refine ⟨opened, fun name => ?_⟩
        rw [Deed.after]
        split
        next same => rw [← same, absent]
        next => rfl

theorem IsOpen.endured (opened : IsOpen w s) (deeds : List Deed) :
    Holds (endured s w deeds) s fun name =>
      deeds.foldl (Deed.after name) ((w.rowsOf s).get? name) := by
  induction deeds generalizing w with
  | nil => exact ⟨opened, fun _ => rfl⟩
  | cons deed rest ih =>
    have first := opened.befall deed
    refine (ih first.toIsOpen).congr fun name => ?_
    rw [first.rows, List.foldl_cons]

theorem Holds.fetch_eq {found : Bytes → Option Row} (holds : Holds w s found) (name made : Bytes) :
    fetch s name made w = (.ok ((w.rowsOf s).fetch name made), w) :=
  holds.reading_eq .query fun d => d.fetch name made

/-- After any history of edits, in which bytes have been put in place of envelopes at any time, a fetch
gives back a payload exactly if the bytes under the name are a whole envelope of this name, made from
this source, misses exactly if there is none or it was made from another source, and reports a damaged
entry in every other case. A name under which nothing stands replaced is answered as if nothing had
been replaced at all, and a put makes its name readable and leaves the others as they were. -/
theorem damage_detected (opened : IsOpen w s) (deeds : List Deed) :
    (∀ name made, ∃ answer,
      fetch s name made (endured s w deeds) = (.ok answer, endured s w deeds) ∧
      Row.Answers (deeds.foldl (Deed.after name) ((w.rowsOf s).get? name)) name made answer) ∧
    (∀ name, deeds.foldl (Deed.damages name) false = false → ∀ made,
      (fetch s name made (endured s w deeds)).1 =
        (fetch s name made (endured s w (deeds.filter Deed.isEdit))).1) ∧
    ∀ p : Put, p.IsAcceptable → ∃ v, perform s (.put p) (endured s w deeds) = (.ok (.ok ()), v) ∧
      fetch s p.name p.sourceDigest v = (.ok (.ok (some p.payload)), v) ∧
      ∀ name made, name ≠ p.name →
        (fetch s name made v).1 = (fetch s name made (endured s w deeds)).1 := by
  have holds := opened.endured deeds
  refine ⟨fun name made => ⟨_, holds.fetch_eq name made, ?_⟩, fun name intact made => ?_,
    fun p acceptable => ?_⟩
  · rw [← holds.rows name]
    exact Database.fetch_answers _ name made
  -- the same row stands under the name with the replacements as without them
  · have edited := opened.endured (deeds.filter Deed.isEdit)
    rw [holds.fetch_eq, edited.fetch_eq]
    refine congrArg Except.ok (Database.fetch_congr ?_ made)
    rw [holds.rows, edited.rows]
    exact Deed.foldl_after_filter (fun _ => rfl) deeds intact
  · have put := holds.save_eq acceptable
    have after := holds.befall (.edit (.put p))
    rw [befall_edit, put] at after
    refine ⟨_, put, ?_, fun name made other => ?_⟩
    · have short : p.IsShort := ⟨acceptable.name, acceptable.sourceDigest, acceptable.payload⟩
      have found := Database.fetch_after_put ((endured s w deeds).rowsOf s) short acceptable.digest
      rw [if_pos acceptable.text] at found
      rw [after.fetch_eq, ← found]
      refine congrArg (fun answer => (Except.ok answer, _)) (Database.fetch_congr ?_ _)
      rw [after.rows, Edit.get?_applied]
      simp [Deed.after, Edit.touches, acceptable.digest]
    · rw [after.fetch_eq, holds.fetch_eq]
      refine congrArg Except.ok (Database.fetch_congr ?_ made)
      rw [after.rows, Deed.after, if_neg fun both => other both.1.symm]

def mishap : List Deed :=
  [.edit (.put ⟨1, "a", [1], [10]⟩), .edit (.put ⟨2, "b", [1], [20]⟩),
    .replace "a" (Put.envelope ⟨2, "b", [1], [20]⟩).encode, .edit (.put ⟨3, "c", [1], []⟩),
    .replace "c" [0xff]]

theorem damage_detected_mishap :
    IsOpen storeOnly ⟨0⟩ ∧
    (∃ c, fetch ⟨0⟩ "a" [1] (endured ⟨0⟩ storeOnly mishap) =
      (.ok (.error (.corrupt c)), endured ⟨0⟩ storeOnly mishap)) ∧
    (∃ c, fetch ⟨0⟩ "c" [1] (endured ⟨0⟩ storeOnly mishap) =
      (.ok (.error (.corrupt c)), endured ⟨0⟩ storeOnly mishap)) ∧
    (fetch ⟨0⟩ "b" [1] (endured ⟨0⟩ storeOnly mishap)).1 = .ok (.ok (some [20])) ∧
    ∃ v, perform ⟨0⟩ (.put ⟨4, "a", [1], [30]⟩) (endured ⟨0⟩ storeOnly mishap) = (.ok (.ok ()), v) ∧
      fetch ⟨0⟩ "a" [1] v = (.ok (.ok (some [30])), v) := by
  have acceptable {p : Put} (name : p.name = "a" ∨ p.name = "b") (digest : p.sourceDigest = [1])
      (payload : p.payload.length < 2) : p.IsAcceptable := by
    refine ⟨?_, by simp [digest], ?_, by simp [digest, Cbor.headLimit], ?_⟩
    · rcases name with same | same <;> rw [same] <;> decide
    · rcases name with same | same <;> rw [same] <;> decide
    · exact payload.trans (by decide)
  have misplaced : (Put.mk 2 "b" [1] [20]).IsAcceptable := acceptable (.inr rfl) rfl (by decide)
  have opened := storeOnly_isFresh.toIsOpen
  obtain ⟨answers, -, repairs⟩ := damage_detected opened mishap
  -- only a row that no envelope vouches for is left, so neither a hit nor a miss is right
  have damaged {name : Bytes} (broken : ∀ row (e : Envelope),
      mishap.foldl (Deed.after name) ((storeOnly.rowsOf ⟨0⟩).get? name) = some row →
      ¬ e.Vouches name row.envelope)
      (there : mishap.foldl (Deed.after name) ((storeOnly.rowsOf ⟨0⟩).get? name) ≠ none) :
      ∃ c, fetch ⟨0⟩ name [1] (endured ⟨0⟩ storeOnly mishap) =
        (.ok (.error (.corrupt c)), endured ⟨0⟩ storeOnly mishap) := by
    obtain ⟨answer, fetched, hit, miss, error⟩ := answers name [1]
    rcases answer with e | _ | payload
    · obtain ⟨c, rfl⟩ := error e rfl
      exact ⟨c, fetched⟩
    · rcases miss.1 rfl with absent | ⟨row, e, found, vouches, -⟩
      · exact absurd absent there
      · exact absurd vouches (broken row e found)
    · obtain ⟨row, e, found, vouches, -⟩ := (hit payload).1 rfl
      exact absurd vouches (broken row e found)
  refine ⟨opened, damaged (fun row e found vouches => ?_) (Option.some_ne_none _),
    damaged (fun row e found vouches => ?_) (Option.some_ne_none _), ?_,
    (repairs ⟨4, "a", [1], [30]⟩ (acceptable (.inl rfl) rfl (by decide))).imp
      fun v both => ⟨both.1, both.2.1⟩⟩
  · cases found
    have name := vouches.name
    rw [← Option.some.inj (misplaced.decode_encode.symm.trans vouches.read)] at name
    exact absurd name (by decide)
  · cases found
    have unread : Envelope.decode [0xff] = none := by decide
    cases unread.symm.trans vouches.read
  · obtain ⟨answer, fetched, hit, -, -⟩ := answers "b" [1]
    have there := (hit [20]).2 ⟨_, _, rfl, ⟨misplaced.decode_encode, rfl, rfl, rfl⟩, rfl, rfl⟩
    rw [fetched, there]

end Connection

end ScriptHost
