import ScriptHost.Cache.Connection
import ScriptHost.Proofs.Cache.Encoding
import ScriptHost.Proofs.Embedder.Following

set_option autoImplicit false

namespace ScriptHost

structure Put where
  time : Int64
  name : Bytes
  sourceDigest : Bytes
  payload : Bytes
deriving DecidableEq

inductive Edit where
  | put (p : Put)
  | delete (name : Bytes)
  | purge
deriving DecidableEq

namespace Put

/-- What a store takes: a name that is text, and a digest. No string is longer than a machine can
tell. -/
structure IsAcceptable (p : Put) : Prop where
  text : p.name.isText
  digest : p.sourceDigest ≠ []
  name : p.name.length < Cbor.headLimit
  sourceDigest : p.sourceDigest.length < Cbor.headLimit
  payload : p.payload.length < Cbor.headLimit

def envelope (p : Put) : Envelope := Envelope.wrap p.name p.sourceDigest p.payload p.time

def row (p : Put) : Row := ⟨p.sourceDigest, p.envelope.encode, p.time⟩

variable {p : Put}

theorem sourceDigest_eq (p : Put) (digest : p.sourceDigest ≠ []) :
    p.envelope.sourceDigest = some p.sourceDigest := by
  simp [envelope, Envelope.wrap, digest]

theorem IsAcceptable.sourceDigest_eq (acceptable : p.IsAcceptable) :
    p.envelope.sourceDigest = some p.sourceDigest :=
  p.sourceDigest_eq acceptable.digest

theorem IsAcceptable.decode_encode (acceptable : p.IsAcceptable) :
    Envelope.decode p.envelope.encode = some p.envelope := by
  apply Envelope.decode_encode
  exact {
    text := acceptable.text
    name := acceptable.name
    sourceDigest := by simpa [acceptable.sourceDigest_eq] using acceptable.sourceDigest
    payload := acceptable.payload }

theorem verify_envelope (p : Put) : p.envelope.verify = .ok () := by
  simp [envelope, Envelope.wrap, Envelope.verify]

end Put

namespace Edit

def touches (name : Bytes) : Edit → Bool
  | .put p => p.name = name
  | .delete other => other = name
  | .purge => true

def IsLast (history : List Edit) (name : Bytes) (p : Put) : Prop :=
  ∃ before after, history = before ++ .put p :: after ∧ p.name = name ∧
    ∀ edit ∈ after, ¬ edit.touches name

def IsLive (history : List Edit) (name : Bytes) : Prop :=
  ∃ p, IsLast history name p

variable {history : List Edit} {name : Bytes} {p q : Put} {edit : Edit}

theorem not_isLast_nil : ¬ IsLast [] name p := by
  rintro ⟨before, after, empty, -⟩
  simp at empty

theorem IsLast.mem (last : IsLast history name p) : .put p ∈ history := by
  obtain ⟨before, after, rfl, -⟩ := last
  simp

theorem IsLast.name_eq (last : IsLast history name p) : p.name = name := by
  obtain ⟨_, _, -, same, -⟩ := last
  exact same

theorem isLast_concat :
    IsLast (history ++ [edit]) name p ↔
      if edit.touches name then edit = .put p else IsLast history name p := by
  constructor
  · rintro ⟨before, after, whole, same, later⟩
    -- the put is the new edit itself or stands before it
    rcases split_concat whole with ⟨rfl, rfl, rfl⟩ | ⟨between, rfl, rfl⟩
    · simp [touches, same]
    · rw [if_neg (later edit (by simp))]
      exact ⟨before, between, rfl, same, fun e member => later e (by simp [member])⟩
  · split
    next touching =>
      rintro rfl
      exact ⟨history, [], rfl, by simpa [touches] using touching, by simp⟩
    next apart =>
      rintro ⟨before, after, rfl, same, later⟩
      refine ⟨before, after ++ [edit], by simp, same, fun e member => ?_⟩
      rcases List.mem_append.1 member with early | new
      · exact later e early
      · obtain rfl := List.mem_singleton.1 new
        exact apart

def IsAcceptable : Edit → Prop
  | .put p => p.IsAcceptable
  | _ => True

def applied (rows : Database) : Edit → Database
  | .put p => rows.insert p.name p.row
  | .delete name => rows.erase name
  | .purge => .empty

theorem get?_applied (rows : Database) (name : Bytes) (edit : Edit) :
    (edit.applied rows).get? name =
      if edit.touches name then
        match edit with
        | .put p => some p.row
        | _ => none
      else rows.get? name := by
  cases edit with
  | put p => simp [applied, touches, eq_comm]
  | delete other => simp [applied, touches, eq_comm]
  | purge => simp [applied, touches]

def Reflects (rows : Database) (history : List Edit) : Prop :=
  ∀ name row, rows.get? name = some row ↔ ∃ p, IsLast history name p ∧ p.row = row

theorem reflects_nil : Reflects .empty [] := by
  intro name row
  simp [not_isLast_nil]

theorem Reflects.applied {rows : Database} (reflects : Reflects rows history) (edit : Edit) :
    Reflects (edit.applied rows) (history ++ [edit]) := by
  intro name row
  rw [get?_applied]
  by_cases touching : edit.touches name
  next => cases edit <;> simp [isLast_concat, touching]
  next => simp [isLast_concat, touching, reflects name row]

variable {rows : Database}

theorem Reflects.isLive_iff (reflects : Reflects rows history) (name : Bytes) :
    rows.contains name ↔ IsLive history name := by
  rw [Table.contains_iff]
  constructor
  · rintro ⟨row, there⟩
    obtain ⟨p, last, -⟩ := (reflects name row).1 there
    exact ⟨p, last⟩
  · rintro ⟨p, last⟩
    exact ⟨p.row, (reflects name p.row).2 ⟨p, last, rfl⟩⟩

end Edit

open Edit

namespace Database

variable {rows : Database} {history : List Edit} {name : Bytes} {p : Put}

theorem fetch_of_last (reflects : Reflects rows history) (last : IsLast history name p)
    (acceptable : p.IsAcceptable) (sourceDigest : Bytes) :
    rows.fetch name sourceDigest =
      .ok (if p.sourceDigest = sourceDigest then some p.payload else none) := by
  have there := (reflects name p.row).2 ⟨p, last, rfl⟩
  have named : p.envelope.name = name := last.name_eq
  have source : p.envelope.isFrom sourceDigest = decide (p.sourceDigest = sourceDigest) := by
    simp [Envelope.isFrom, acceptable.sourceDigest_eq]
  rw [fetch, there]
  simp only [Put.row, acceptable.decode_encode, p.verify_envelope, named, source]
  by_cases fresh : p.sourceDigest = sourceDigest
  next => simp [fresh, Put.envelope, Envelope.wrap]
  next => simp [fresh]

theorem fetch_of_not_live (reflects : Reflects rows history) (dead : ¬ IsLive history name)
    (sourceDigest : Bytes) : rows.fetch name sourceDigest = .ok none := by
  rw [← reflects.isLive_iff, Table.contains] at dead
  rw [fetch]
  cases there : rows.get? name with
  | none => rfl
  | some row => simp [there] at dead

theorem save_of_digest (rows : Database) (digest : p.sourceDigest ≠ []) :
    rows.save p.time p.name p.sourceDigest p.payload = .ok ((Edit.put p).applied rows) := by
  have source := p.sourceDigest_eq digest
  rw [Put.envelope] at source
  simp only [save, source]
  rfl

theorem save_eq (rows : Database) (acceptable : p.IsAcceptable) :
    rows.save p.time p.name p.sourceDigest p.payload = .ok ((Edit.put p).applied rows) :=
  save_of_digest rows acceptable.digest

end Database

theorem Database.fetch_put {rows : Database} {p : Put} (digest : p.sourceDigest ≠ [])
    (name : p.name.length < Cbor.headLimit) (sourceDigest : p.sourceDigest.length < Cbor.headLimit)
    (payload : p.payload.length < Cbor.headLimit) {sought made found : Bytes}
    (fetched : ((Edit.put p).applied rows).fetch sought made = .ok (some found)) :
    rows.fetch sought made = .ok (some found) ∨
      sought = p.name ∧ made = p.sourceDigest ∧ found = p.payload := by
  by_cases own : sought = p.name
  next =>
    subst own
    have there : ((Edit.put p).applied rows).get? p.name = some p.row := by
      simp [get?_applied, touches]
    rw [fetch, there] at fetched
    by_cases text : p.name.isText
    next =>
      have acceptable : p.IsAcceptable := ⟨text, digest, name, sourceDigest, payload⟩
      simp only [Put.row, acceptable.decode_encode, p.verify_envelope] at fetched
      have named : p.envelope.name = p.name := rfl
      have source : p.envelope.isFrom made = decide (p.sourceDigest = made) := by
        simp [Envelope.isFrom, acceptable.sourceDigest_eq]
      rw [if_neg (by simp [named]), source] at fetched
      split at fetched
      next same =>
        cases fetched
        exact .inr ⟨rfl, (of_decide_eq_true same).symm, rfl⟩
      next => cases fetched
    next =>
      -- an entry whose name is no text is damaged, so it is not found
      have source : ∀ d ∈ p.envelope.sourceDigest, d.length < Cbor.headLimit := by
        simpa [Put.envelope, Envelope.wrap, digest] using sourceDigest
      have broken : Envelope.decode p.envelope.encode = none :=
        Envelope.decode_encode_of_not_text ⟨name, source, payload⟩ text
      simp [Put.row, broken] at fetched
  next =>
    have apart : ((Edit.put p).applied rows).get? sought = rows.get? sought := by
      simp [get?_applied, touches, Ne.symm own]
    rw [fetch, apart] at fetched
    exact .inl fetched

def Put.entry (p : Put) : StoreEntry := ⟨p.name, p.sourceDigest, p.envelope.encode.length, p.time⟩

namespace Database

variable {rows : Database} {history : List Edit}

theorem mem_list (reflects : Reflects rows history) (entry : StoreEntry) :
    entry ∈ rows.list ↔ ∃ p, IsLast history entry.name p ∧ entry = p.entry := by
  rw [list, List.mem_map]
  constructor
  · rintro ⟨⟨name, row⟩, member, rfl⟩
    obtain ⟨p, last, rfl⟩ := (reflects name row).1 (Table.mem_sorted.1 member)
    refine ⟨p, last, ?_⟩
    simp [Put.entry, Put.row, last.name_eq]
  · rintro ⟨p, last, same⟩
    refine ⟨(entry.name, p.row), Table.mem_sorted.2 ((reflects _ _).2 ⟨p, last, rfl⟩), ?_⟩
    simp [same, Put.entry, Put.row]

theorem list_ascending (rows : Database) : rows.list.Pairwise fun e f => e.name < f.name := by
  rw [list, List.pairwise_map]
  exact rows.sorted_pairwise

@[simp] theorem length_list (rows : Database) : rows.list.length = rows.size := by
  simp [list]

end Database

variable {σ α : Type}

namespace World

def rowsOf (w : World σ) (s : StoreId) : Database := w.databases.get (w.stores.get s).database

def withRows (w : World σ) (s : StoreId) (rows : Database) : World σ :=
  { w with databases := w.databases.modify (w.stores.get s).database fun _ => rows }

def withClock (w : World σ) (s : StoreId) (now : Int64) : World σ :=
  { w with stores := w.stores.modify s fun x => { x with now } }

end World

namespace Connection

variable {w : World σ} {s : StoreId}

def setClock (s : StoreId) (now : Int64) : Run σ Unit :=
  modify fun w => w.withClock s now

structure IsOpen (w : World σ) (s : StoreId) : Prop where
  store : w.stores.has s
  database : w.databases.has (w.stores.get s).database
  closed : (w.stores.get s).isClosed = false
  readOnly : (w.stores.get s).isReadOnly = false
  overwritten : w.files.overwritten? (w.stores.get s).database = none

structure IsFresh (w : World σ) (s : StoreId) : Prop extends IsOpen w s where
  rows : w.rowsOf s = .empty

namespace IsOpen

theorem obstacle_eq (opened : IsOpen w s) (action : StoreAction) :
    obstacle? w (w.stores.get s) action = none := by
  simp [obstacle?, opened.closed, opened.overwritten]

theorem reading_eq (opened : IsOpen w s) (action : StoreAction)
    (f : Database → Except StoreError α) : reading s action f w = (.ok (f (w.rowsOf s)), w) := by
  simp [reading, opened.obstacle_eq, World.rowsOf]

theorem changing_ok (opened : IsOpen w s) (action : StoreAction)
    {f : Store → Database → Except StoreError (α × Database)} {result : α} {rows : Database}
    (accepted : f (w.stores.get s) (w.rowsOf s) = .ok (result, rows)) :
    changing s action f w = (.ok (.ok result), w.withRows s rows) := by
  rw [World.rowsOf] at accepted
  simp [changing, opened.obstacle_eq, opened.readOnly, accepted]
  rfl

theorem changing_error (opened : IsOpen w s) (action : StoreAction)
    {f : Store → Database → Except StoreError (α × Database)} {e : StoreError}
    (refused : f (w.stores.get s) (w.rowsOf s) = .error e) :
    changing s action f w = (.ok (.error e), w) := by
  rw [World.rowsOf] at refused
  simp [changing, opened.obstacle_eq, opened.readOnly, refused]

theorem withRows (opened : IsOpen w s) (rows : Database) : IsOpen (w.withRows s rows) s :=
  { opened with database := by simpa [World.withRows] using opened.database }

theorem rowsOf_withRows (opened : IsOpen w s) (rows : Database) :
    (w.withRows s rows).rowsOf s = rows :=
  Pool.get_modify_self _ _ _ opened.database

end IsOpen

theorem setClock_eq (w : World σ) (s : StoreId) (now : Int64) :
    setClock s now w = (.ok (), w.withClock s now) := rfl

theorem IsOpen.get_withClock (opened : IsOpen w s) (now : Int64) :
    (w.withClock s now).stores.get s = { w.stores.get s with now } :=
  Pool.get_modify_self _ _ _ opened.store

theorem IsOpen.withClock (opened : IsOpen w s) (now : Int64) : IsOpen (w.withClock s now) s := by
  have same := opened.get_withClock now
  constructor
  case store => simpa [World.withClock] using opened.store
  all_goals rw [same]
  case database => exact opened.database
  case closed => exact opened.closed
  case readOnly => exact opened.readOnly
  case overwritten => exact opened.overwritten

theorem IsOpen.rowsOf_withClock (opened : IsOpen w s) (now : Int64) :
    (w.withClock s now).rowsOf s = w.rowsOf s := by
  rw [World.rowsOf, opened.get_withClock]
  rfl

def perform (s : StoreId) : Edit → Run σ (Except StoreError Unit)
  | .put p => do
    setClock s p.time
    save s p.name p.sourceDigest p.payload
  | .delete name => delete s name
  | .purge => do
    return (← purge s).map fun _ => ()

def performed (s : StoreId) (w : World σ) (history : List Edit) : World σ :=
  history.foldl (fun w edit => (perform s edit w).2) w

structure Keeps (w : World σ) (s : StoreId) (history : List Edit) : Prop extends IsOpen w s where
  reflects : Reflects (w.rowsOf s) history

variable {history : List Edit}

theorem IsOpen.save_eq (opened : IsOpen w s) {p : Put} (acceptable : p.IsAcceptable) :
    perform s (.put p) w =
      (.ok (.ok ()), (w.withClock s p.time).withRows s
        ((Edit.put p).applied (w.rowsOf s))) := by
  have later := opened.withClock p.time
  rw [perform, Run.bind_ok (setClock_eq w s p.time)]
  apply later.changing_ok
  have now : ((w.withClock s p.time).stores.get s).now = p.time := by
    rw [opened.get_withClock]
  rw [now, opened.rowsOf_withClock, Database.save_eq _ acceptable]
  rfl

theorem IsOpen.delete_ok (opened : IsOpen w s) {name : Bytes}
    (there : (w.rowsOf s).contains name) :
    delete s name w = (.ok (.ok ()), w.withRows s ((Edit.delete name).applied (w.rowsOf s))) := by
  apply opened.changing_ok
  rw [Database.delete, if_pos there]
  rfl

theorem IsOpen.delete_missing (opened : IsOpen w s) {name : Bytes}
    (missing : ¬ (w.rowsOf s).contains name) : delete s name w = (.ok (.error .notFound), w) := by
  apply opened.changing_error
  rw [Database.delete, if_neg missing]
  rfl

theorem IsOpen.purge_eq (opened : IsOpen w s) :
    purge s w = (.ok (.ok (w.rowsOf s).size), w.withRows s (Edit.purge.applied (w.rowsOf s))) := by
  apply opened.changing_ok
  rfl

theorem Keeps.edited (keeps : Keeps w s history) {v : World σ} (opened : IsOpen v s) (edit : Edit)
    (rows : v.rowsOf s = edit.applied (w.rowsOf s)) : Keeps v s (history ++ [edit]) :=
  { opened with reflects := rows ▸ keeps.reflects.applied edit }

theorem Keeps.perform (keeps : Keeps w s history) {edit : Edit} (acceptable : edit.IsAcceptable) :
    Keeps (perform s edit w).2 s (history ++ [edit]) := by
  have opened := keeps.toIsOpen
  cases edit with
  | put p =>
    rw [opened.save_eq acceptable]
    have later := opened.withClock p.time
    exact keeps.edited (later.withRows _) _ (later.rowsOf_withRows _)
  | delete name =>
    by_cases there : (w.rowsOf s).contains name
    next =>
      simp only [Connection.perform, opened.delete_ok there]
      exact keeps.edited (opened.withRows _) _ (opened.rowsOf_withRows _)
    next =>
      simp only [Connection.perform, opened.delete_missing there]
      -- nothing is erased, so the rows still hold the same under every name
      refine { opened with reflects := fun other row => ?_ }
      have absent : (w.rowsOf s).get? name = none := by simpa [Table.contains] using there
      rw [← keeps.reflects.applied (.delete name) other row, applied, Table.get?_erase]
      by_cases same : other = name
      next => simp [same, absent]
      next => simp [same]
  | purge =>
    rw [Connection.perform, Run.bind_ok opened.purge_eq]
    exact keeps.edited (opened.withRows _) _ (opened.rowsOf_withRows _)

theorem Keeps.performed (keeps : Keeps w s history) {more : List Edit}
    (acceptable : ∀ edit ∈ more, edit.IsAcceptable) :
    Keeps (performed s w more) s (history ++ more) := by
  induction more generalizing w history with
  | nil => simpa [Connection.performed] using keeps
  | cons edit more ih =>
    obtain ⟨here, later⟩ := List.forall_mem_cons.1 acceptable
    simpa [Connection.performed] using ih (keeps.perform here) later

theorem IsFresh.keeps (fresh : IsFresh w s) : Keeps w s [] :=
  { fresh with reflects := fresh.rows ▸ reflects_nil }

theorem Keeps.fetch_answer (keeps : Keeps w s history)
    (acceptable : ∀ edit ∈ history, edit.IsAcceptable) (name sourceDigest : Bytes) :
    ∃ answer, fetch s name sourceDigest w = (.ok (.ok answer), w) ∧
      ∀ payload, answer = some payload ↔
        ∃ p, IsLast history name p ∧ p.sourceDigest = sourceDigest ∧ p.payload = payload := by
  have answered := keeps.reading_eq .query fun d => d.fetch name sourceDigest
  by_cases live : IsLive history name
  next =>
    have finds {q : Put} (last : IsLast history name q) :=
      Database.fetch_of_last keeps.reflects last (acceptable (.put q) last.mem) sourceDigest
    obtain ⟨p, last⟩ := live
    refine ⟨_, by rw [fetch, answered, finds last], fun payload => ?_⟩
    constructor
    · intro found
      by_cases same : p.sourceDigest = sourceDigest
      next => exact ⟨p, last, same, by simpa [same] using found⟩
      next => simp [same] at found
    · rintro ⟨q, lastToo, same, rfl⟩
      have agree := (finds last).symm.trans (finds lastToo)
      simpa [same] using agree
  next =>
    refine ⟨none, ?_, fun payload => ⟨nofun, ?_⟩⟩
    · rw [fetch, answered, Database.fetch_of_not_live keeps.reflects live]
    · rintro ⟨p, last, -⟩
      exact (live ⟨p, last⟩).elim

/-- After any history of edits a fresh store answers from the last puts: a fetch finds a payload
exactly if it is the last put of the name and was made from the same source, a deletion is refused
exactly if there is nothing to delete, and the listing holds every last put once, by name. -/
theorem store_is_finite_map (fresh : IsFresh w s)
    (acceptable : ∀ edit ∈ history, edit.IsAcceptable) :
    (∀ p : Put, p.IsAcceptable →
      ∃ v, perform s (.put p) (performed s w history) = (.ok (.ok ()), v)) ∧
    (∀ name sourceDigest, ∃ answer,
      fetch s name sourceDigest (performed s w history) =
        (.ok (.ok answer), performed s w history) ∧
      ∀ payload, answer = some payload ↔
        ∃ p, IsLast history name p ∧ p.sourceDigest = sourceDigest ∧ p.payload = payload) ∧
    (∀ name, IsLive history name →
      ∃ v, delete s name (performed s w history) = (.ok (.ok ()), v)) ∧
    (∀ name, ¬ IsLive history name →
      delete s name (performed s w history) =
        (.ok (.error .notFound), performed s w history)) ∧
    ∃ entries,
      list s (performed s w history) = (.ok (.ok entries), performed s w history) ∧
      (entries.Pairwise fun e f => e.name < f.name) ∧
      (∀ entry, entry ∈ entries ↔ ∃ p, IsLast history entry.name p ∧ entry = p.entry) ∧
      ∃ v, purge s (performed s w history) = (.ok (.ok entries.length), v) := by
  have keeps : Keeps (performed s w history) s history := by
    simpa using fresh.keeps.performed acceptable
  generalize performed s w history = v at keeps ⊢
  have live := keeps.reflects.isLive_iff
  refine ⟨fun p takes => ⟨_, keeps.save_eq takes⟩, keeps.fetch_answer acceptable,
    fun name there => ⟨_, keeps.delete_ok ((live name).2 there)⟩,
    fun name gone => keeps.delete_missing (mt (live name).1 gone),
    (v.rowsOf s).list, keeps.reading_eq .list fun d => .ok d.list,
    Database.list_ascending _, Database.mem_list keeps.reflects, v.withRows s .empty, ?_⟩
  rw [Database.length_list]
  exact keeps.purge_eq

def storeOnly : World Unit :=
  (connect ":memory:" 0 {
    files := FileTree.make "/", observers := standardObservers, embedder := () }).2

def replacement : List Edit :=
  [.put ⟨1, "a", [1], [10]⟩, .put ⟨2, "a", [2], []⟩, .put ⟨3, "b", [1], [30]⟩, .delete "b"]

theorem replacement_isAcceptable : ∀ edit ∈ replacement, edit.IsAcceptable := by
  simp only [replacement, List.forall_mem_cons, List.not_mem_nil, false_imp_iff, implies_true,
    and_true]
  exact ⟨⟨by decide, by decide, by decide, by decide, by decide⟩,
    ⟨by decide, by decide, by decide, by decide, by decide⟩,
    ⟨by decide, by decide, by decide, by decide, by decide⟩, trivial⟩

theorem storeOnly_isFresh : IsFresh storeOnly ⟨0⟩ :=
  ⟨⟨by decide, by decide, by decide, by decide, by decide⟩, rfl⟩

theorem store_is_finite_map_replacement :
    IsFresh storeOnly ⟨0⟩ ∧ (∀ edit ∈ replacement, edit.IsAcceptable) ∧
    fetch ⟨0⟩ "a" [2] (performed ⟨0⟩ storeOnly replacement) =
      (.ok (.ok (some [])), performed ⟨0⟩ storeOnly replacement) ∧
    delete ⟨0⟩ "b" (performed ⟨0⟩ storeOnly replacement) =
      (.ok (.error .notFound), performed ⟨0⟩ storeOnly replacement) := by
  obtain ⟨-, fetches, -, refuses, -⟩ :=
    store_is_finite_map storeOnly_isFresh replacement_isAcceptable
  refine ⟨storeOnly_isFresh, replacement_isAcceptable, ?_, refuses "b" ?_⟩
  · obtain ⟨answer, fetched, found⟩ := fetches "a" [2]
    have last : IsLast replacement "a" ⟨2, "a", [2], []⟩ :=
      ⟨[.put ⟨1, "a", [1], [10]⟩], [.put ⟨3, "b", [1], [30]⟩, .delete "b"], rfl, rfl, by decide⟩
    rw [fetched, (found []).2 ⟨_, last, rfl, rfl⟩]
  · rintro ⟨p, last⟩
    have deleted : IsLast (replacement.take 3 ++ [.delete "b"]) "b" p := last
    simp [isLast_concat, touches] at deleted

end Connection

end ScriptHost
