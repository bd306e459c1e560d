import ScriptHost.Proofs.Cache.History

set_option autoImplicit false

namespace ScriptHost

namespace Put

variable {p : Put}

structure IsShort (p : Put) : Prop where
  name : p.name.length < Cbor.headLimit
  sourceDigest : p.sourceDigest.length < Cbor.headLimit
  payload : p.payload.length < Cbor.headLimit

theorem IsShort.envelope (short : p.IsShort) : p.envelope.IsShort where
  name := short.name
  sourceDigest digest given := by
    have same : digest = p.sourceDigest := by
      simp only [Put.envelope, Envelope.wrap] at given
      split at given
      next => cases given
      next => exact (Option.mem_some.1 given).symm
    exact same ▸ short.sourceDigest
  payload := short.payload

end Put

theorem Database.fetch_after_put (rows : Database) {p : Put} (short : p.IsShort)
    (digest : p.sourceDigest ≠ []) :
    ((Edit.put p).applied rows).fetch p.name p.sourceDigest =
      if p.name.isText then .ok (some p.payload) else .error (.corrupt .unreadable) := by
  have there : ((Edit.put p).applied rows).get? p.name = some p.row := by
    simp [Edit.get?_applied, Edit.touches]
  have source : p.envelope.isFrom p.sourceDigest := by
    simp [Envelope.isFrom, p.sourceDigest_eq digest]
  have named : p.envelope.name = p.name := rfl
  rw [fetch, there]
  by_cases text : p.name.isText
  next =>
    have acceptable : p.IsAcceptable :=
      ⟨text, digest, short.name, short.sourceDigest, short.payload⟩
    simp only [Put.row, acceptable.decode_encode, p.verify_envelope]
    rw [if_neg (by simp [named]), if_pos source, if_pos text]
    rfl
  next =>
    have broken : Envelope.decode p.envelope.encode = none :=
      Envelope.decode_encode_of_not_text short.envelope text
    simp only [Put.row, broken]
    rw [if_neg text]

namespace Connection

variable {σ α : Type} {w v : World σ} {s : StoreId}

structure IsKnown (w : World σ) (s : StoreId) : Prop where
  store : w.stores.has s
  database : w.databases.has (w.stores.get s).database

def putOf (w : World σ) (s : StoreId) (name sourceDigest payload : Bytes) : Put :=
  ⟨(w.stores.get s).now, name, sourceDigest, payload⟩

variable {name sourceDigest payload : Bytes}

def saved (w : World σ) (s : StoreId) (name sourceDigest payload : Bytes) : World σ :=
  w.withRows s ((Edit.put (putOf w s name sourceDigest payload)).applied (w.rowsOf s))

theorem IsOpen.save_ok (opened : IsOpen w s) (digest : sourceDigest ≠ []) :
    save s name sourceDigest payload w =
      (.ok (.ok ()), saved w s name sourceDigest payload) := by
  apply opened.changing_ok
  have taken := (w.rowsOf s).save_of_digest (p := putOf w s name sourceDigest payload) digest
  simp only [putOf] at taken
  rw [taken]
  rfl

theorem IsOpen.save_missing (opened : IsOpen w s) :
    save s name [] payload w = (.ok (.error .missingDigest), w) :=
  opened.changing_error .save rfl

theorem IsOpen.fetch_saved (opened : IsOpen w s)
    (short : (putOf w s name sourceDigest payload).IsShort) (digest : sourceDigest ≠ []) :
    fetch s name sourceDigest (saved w s name sourceDigest payload) =
      (.ok (if name.isText then .ok (some payload) else .error (.corrupt .unreadable)),
        saved w s name sourceDigest payload) := by
  have found := Database.fetch_after_put (w.rowsOf s) short digest
  rw [fetch, saved, (opened.withRows _).reading_eq, opened.rowsOf_withRows]
  exact congrArg (fun answer => (Except.ok answer, _)) found

theorem changing_refused (known : IsKnown w s) (shut : ¬ IsOpen w s) (action : StoreAction)
    (f : Store → Database → Except StoreError (α × Database)) :
    ∃ e, changing s action f w = (.ok (.error e), w) := by
  cases blocked : obstacle? w (w.stores.get s) action with
  | some e => exact ⟨e, by simp [changing, blocked]⟩
  | none =>
    cases fixed : (w.stores.get s).isReadOnly with
    | true => exact ⟨.notWritable action, by simp [changing, blocked, fixed]⟩
    | false =>
      unfold obstacle? at blocked
      split at blocked
      next => cases blocked
      next closed =>
        have opened : IsOpen w s := ⟨known.store, known.database, by simpa using closed, fixed,
          Option.map_eq_none_iff.1 blocked⟩
        exact absurd opened shut

/-- Whatever state a store is in, it refuses a payload without a trace, or it takes the payload and
gives it back if the name is text. A name that is no text makes a damaged entry. -/
theorem save_accepts (known : IsKnown w s) (nameShort : name.length < Cbor.headLimit)
    (digestShort : sourceDigest.length < Cbor.headLimit)
    (payloadShort : payload.length < Cbor.headLimit) :
    (∃ e, save s name sourceDigest payload w = (.ok (.error e), w)) ∨
    ∃ v, save s name sourceDigest payload w = (.ok (.ok ()), v) ∧
      fetch s name sourceDigest v =
        (.ok (if name.isText then .ok (some payload) else .error (.corrupt .unreadable)), v) := by
  by_cases opened : IsOpen w s
  next =>
    by_cases digest : sourceDigest = []
    next =>
      subst digest
      exact .inl ⟨_, opened.save_missing⟩
    next =>
      exact .inr ⟨_, opened.save_ok digest,
        opened.fetch_saved ⟨nameShort, digestShort, payloadShort⟩ digest⟩
  next => exact .inl (changing_refused known opened .save _)

theorem save_accepts_text :
    IsKnown storeOnly ⟨0⟩ ∧
    ∃ v, save ⟨0⟩ "é" [1] [10] storeOnly = (.ok (.ok ()), v) ∧
      fetch ⟨0⟩ "é" [1] v = (.ok (.ok (some [10])), v) := by
  have known : IsKnown storeOnly ⟨0⟩ := ⟨by decide, by decide⟩
  refine ⟨known, ?_⟩
  rcases save_accepts known (by decide : ("é" : Bytes).length < Cbor.headLimit)
    (by decide : ([1] : Bytes).length < Cbor.headLimit)
    (by decide : ([10] : Bytes).length < Cbor.headLimit) with ⟨e, refused⟩ | taken
  next =>
    rw [storeOnly_isFresh.save_ok (by decide)] at refused
    cases refused
  next => exact taken

def brokenName : Bytes := [0xff]

theorem broken_name_unreadable :
    ∃ v, save ⟨0⟩ brokenName [1] [10] storeOnly = (.ok (.ok ()), v) ∧
      fetch ⟨0⟩ brokenName [1] v = (.ok (.error (.corrupt .unreadable)), v) := by
  have opened := storeOnly_isFresh.toIsOpen
  have digest : ([1] : Bytes) ≠ [] := by decide
  have short : (putOf storeOnly ⟨0⟩ brokenName [1] [10]).IsShort :=
    ⟨by decide, by decide, by decide⟩
  refine ⟨_, opened.save_ok digest, ?_⟩
  rw [opened.fetch_saved short digest]
  have noText : ¬ brokenName.isText := by decide
  rw [if_neg noText]

end Connection

end ScriptHost
