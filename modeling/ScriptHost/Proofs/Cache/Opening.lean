import ScriptHost.Proofs.Cache.History

set_option autoImplicit false

namespace ScriptHost

variable {σ : Type}

namespace FileTree

def database? : Node → Option DatabaseId
  | .database d | .overwritten d _ => some d
  | _ => none

def Knows (t : FileTree) (databases : Pool .databases Database) : Prop :=
  ∀ path node d, t.nodes.get? path = some node → database? node = some d → databases.has d

variable {t : FileTree} {databases : Pool .databases Database} {path : Bytes} {d : DatabaseId}

theorem Knows.put (knows : t.Knows databases) (path : Bytes) {node : Node}
    (known : ∀ d, database? node = some d → databases.has d) : (t.put path node).Knows databases := by
  intro other found d there belongs
  rw [FileTree.put, Table.get?_insert] at there
  split at there
  next => exact known d (Option.some.inj there ▸ belongs)
  next => exact knows other found d there belongs

theorem Knows.makeStages (knows : t.Knows databases) (paths : List Bytes) :
    (t.makeStages paths).1.Knows databases := by
  induction paths generalizing t with
  | nil => exact knows
  | cons path rest ih =>
    unfold FileTree.makeStages
    split
    · exact ih knows
    · exact knows
    · split
      · exact knows
      · split
        · exact knows
        · exact ih (knows.put path (by simp [database?]))

theorem Knows.node? (knows : t.Knows databases) {node : Node} (there : t.node? path = some node)
    (belongs : database? node = some d) : databases.has d := by
  unfold FileTree.node? at there
  split at there
  next =>
    obtain rfl := Option.some.inj there
    cases belongs
  next => exact knows path node d there belongs

theorem overwritten?_eq_none :
    t.overwritten? d = none ↔ ∀ path content, t.nodes.get? path ≠ some (.overwritten d content) := by
  rw [overwritten?, List.findSome?_eq_none_iff]
  constructor
  · intro none path content there
    simpa using none _ (Table.mem_values.2 ⟨path, there⟩)
  · intro apart node member
    obtain ⟨path, there⟩ := Table.mem_values.1 member
    cases node with
    | overwritten other content =>
      simp only [ite_eq_right_iff, reduceCtorEq]
      rintro rfl
      exact apart path content there
    | _ => rfl

theorem Knows.overwritten?_eq_none (knows : t.Knows databases) (unknown : ¬ databases.has d) :
    t.overwritten? d = none :=
  FileTree.overwritten?_eq_none.2 fun path _ there => unknown (knows path _ d there rfl)

theorem overwritten?_put_database (before : t.overwritten? d = none) (path : Bytes) (e : DatabaseId) :
    (t.put path (.database e)).overwritten? d = none := by
  rw [overwritten?_eq_none] at before ⊢
  intro other content there
  rw [put, Table.get?_insert] at there
  split at there
  next => cases there
  next => exact before other content there

end FileTree

namespace Connection

variable {w v : World σ} {d : DatabaseId} {access : Access}

structure IsNew (w v : World σ) (d : DatabaseId) (access : Access) : Prop where
  databases : v.databases = w.databases.add .empty
  database : d = w.databases.next
  stores : v.stores = w.stores
  access : access ≠ .reading
  overwritten : v.files.overwritten? d = none

theorem prepare_eq {path place : Bytes}
    (prepared : prepare path access w = (.ok (.ok place), v)) :
    v = w ∨ v = { w with files := w.files.put place (.file []) } := by
  cases reached : reachable? w.files path with
  | none =>
    simp [prepare, reached] at prepared
    cases prepared
  | some there =>
    cases found : w.files.node? there with
    | some node =>
      simp [prepare, reached, found] at prepared
      cases prepared
      exact .inl rfl
    | none =>
      cases access <;> simp [prepare, reached, found] at prepared <;> cases prepared
      exact .inr rfl

theorem databaseAt_new {place : Bytes} (knows : w.files.Knows w.databases)
    (unknown : ¬ w.databases.has d) (opened : databaseAt place access w = (.ok (.ok d), v)) :
    IsNew w v d access := by
  cases found : w.files.node? place with
  | none =>
    simp [databaseAt, found] at opened
    cases opened
  | some node =>
    cases node with
    | directory =>
      simp [databaseAt, found] at opened
      cases opened
    | database e =>
      simp [databaseAt, found] at opened
      cases opened
      exact (unknown (knows.node? found rfl)).elim
    | overwritten e content =>
      -- where a database was written over it is emptied, and it was known before
      have known := knows.node? found rfl
      by_cases blank : isBlank content <;> by_cases reading : access = .reading <;>
        by_cases long : FileTree.longestName
          < (Bytes.afterLast Path.separator place).length + journalSuffix.length <;>
        simp [databaseAt, found, blank, reading, long] at opened <;> cases opened
      exact (unknown known).elim
    | file content =>
      by_cases blank : isBlank content <;> by_cases reading : access = .reading <;>
        by_cases long : FileTree.longestName
          < (Bytes.afterLast Path.separator place).length + journalSuffix.length <;>
        simp [databaseAt, found, blank, reading, long, newDatabase] at opened <;> cases opened
      exact ⟨rfl, rfl, rfl, reading, FileTree.overwritten?_put_database
        (knows.overwritten?_eq_none unknown) _ _⟩

theorem databaseOf_new {name : Bytes} (knows : w.files.Knows w.databases)
    (unknown : ¬ w.databases.has d) (opened : databaseOf name w = (.ok (.ok (d, access)), v)) :
    IsNew w v d access := by
  cases parsed : Location.parse name with
  | error e =>
    simp [databaseOf, parsed] at opened
    cases opened
  | ok location =>
    cases location with
    | transient =>
      cases checked : Location.checkParameters name with
      | error e =>
        simp [databaseOf, parsed, checked] at opened
        cases opened
      | ok =>
        simp [databaseOf, parsed, checked, newDatabase] at opened
        cases opened
        exact ⟨rfl, rfl, rfl, nofun, knows.overwritten?_eq_none unknown⟩
    | file path asked =>
      simp only [databaseOf, parsed] at opened
      obtain ⟨prepared, u, first, opened⟩ := Run.of_bind_ok opened
      cases prepared with
      | error e => cases opened
      | ok place =>
        -- preparing the place makes a file at most, which touches no database
        have same : u.databases = w.databases ∧ u.stores = w.stores ∧ u.files.Knows w.databases := by
          rcases prepare_eq first with rfl | rfl
          · exact ⟨rfl, rfl, knows⟩
          · exact ⟨rfl, rfl, knows.put place nofun⟩
        obtain ⟨databases, stores, knows⟩ := same
        cases checked : Location.checkParameters name with
        | error e =>
          simp only [checked] at opened
          cases opened
        | ok =>
          simp only [checked] at opened
          obtain ⟨found, u', second, opened⟩ := Run.of_bind_ok opened
          cases found with
          | error e => cases opened
          | ok e =>
            cases opened
            have new := databaseAt_new (databases ▸ knows) (databases ▸ unknown) second
            exact { new with
              databases := databases ▸ new.databases
              database := databases ▸ new.database
              stores := stores ▸ new.stores }

theorem connect_isFresh {name : Bytes} {now : Int64} {s : StoreId}
    (knows : w.files.Knows w.databases) (opened : connect name now w = (.ok (.ok s), v))
    (unknown : ¬ w.databases.has (v.stores.get s).database) : IsFresh v s := by
  have made := knows.makeStages (Path.stages (Path.parent name))
  rcases result : w.files.makeDirectories (Path.parent name) with ⟨files, blocked⟩
  rw [← FileTree.makeDirectories, result] at made
  cases blocked with
  | some flaw =>
    simp [connect, result] at opened
    cases opened
  | none =>
    simp only [connect, Run.bind_apply, Run.get_apply, Run.modify_apply, result] at opened
    rcases found : databaseOf name { w with files } with ⟨_ | _ | ⟨d, access⟩, u⟩ <;>
      rw [found] at opened <;> cases opened
    have store : (u.stores.add ⟨d, name, now, access = .reading, false⟩).get u.stores.next =
        ⟨d, name, now, access = .reading, false⟩ := Pool.get_add_next _ _
    have new := databaseOf_new made (by simpa [store] using unknown) found
    constructor
    · constructor
      · exact Pool.has_next_add _ _
      all_goals dsimp only; rw [store]
      · rw [new.database, new.databases]
        exact Pool.has_next_add _ _
      · simpa using new.access
      · exact new.overwritten
    · rw [World.rowsOf]
      dsimp only
      rw [store, new.databases, new.database]
      exact Pool.get_add_next _ _

end Connection

end ScriptHost
