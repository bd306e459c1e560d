import ScriptHost.Text.Bytes

set_option autoImplicit false

namespace ScriptHost

structure Table (α : Type) where
  entries : List (Bytes × α)
  distinct : (entries.map Prod.fst).Nodup

namespace Table

variable {α : Type}

def empty : Table α := ⟨[], by simp⟩

instance : Inhabited (Table α) := ⟨empty⟩

def lookup (key : Bytes) : List (Bytes × α) → Option α
  | [] => none
  | (k, a) :: rest => if k = key then some a else lookup key rest

def replace (key : Bytes) (a : α) : List (Bytes × α) → List (Bytes × α)
  | [] => [(key, a)]
  | (k, b) :: rest => if k = key then (k, a) :: rest else (k, b) :: replace key a rest

theorem mem_keys_replace (key k : Bytes) (a : α) (entries : List (Bytes × α)) :
    k ∈ (replace key a entries).map Prod.fst ↔ k = key ∨ k ∈ entries.map Prod.fst := by
  induction entries with
  | nil => simp [replace]
  | cons e rest ih =>
    obtain ⟨k', b⟩ := e
    by_cases same : k' = key
    · simp [replace, same]
    · simp only [replace, same, if_false, List.map_cons, List.mem_cons, ih]
      grind

theorem nodup_replace (key : Bytes) (a : α) (entries : List (Bytes × α))
    (h : (entries.map Prod.fst).Nodup) : ((replace key a entries).map Prod.fst).Nodup := by
  induction entries with
  | nil => simp [replace]
  | cons e rest ih =>
    obtain ⟨k, b⟩ := e
    rw [List.map_cons, List.nodup_cons] at h
    by_cases same : k = key
    · simpa [replace, same] using h
    · simp only [replace, same, if_false, List.map_cons, List.nodup_cons, mem_keys_replace]
      exact ⟨by simp_all, ih h.2⟩

def get? (t : Table α) (key : Bytes) : Option α := lookup key t.entries

def contains (t : Table α) (key : Bytes) : Bool := (t.get? key).isSome

def insert (t : Table α) (key : Bytes) (a : α) : Table α :=
  ⟨replace key a t.entries, nodup_replace key a t.entries t.distinct⟩

def erase (t : Table α) (key : Bytes) : Table α :=
  ⟨t.entries.filter (·.1 ≠ key), t.distinct.sublist (List.filter_sublist.map Prod.fst)⟩

def discard (t : Table α) (p : Bytes → Bool) : Table α :=
  ⟨t.entries.filter (!p ·.1), t.distinct.sublist (List.filter_sublist.map Prod.fst)⟩

def keys (t : Table α) : List Bytes := t.entries.map Prod.fst

def values (t : Table α) : List α := t.entries.map Prod.snd

def size (t : Table α) : Nat := t.entries.length

def ofList (entries : List (Bytes × α)) : Table α :=
  entries.foldl (fun t e => t.insert e.1 e.2) empty

def overlay (t other : Table α) : Table α :=
  other.entries.foldl (fun t e => t.insert e.1 e.2) t

def sorted (t : Table α) : List (Bytes × α) := Bytes.sortBy Prod.fst t.entries

theorem lookup_replace (key k : Bytes) (a : α) (entries : List (Bytes × α)) :
    lookup k (replace key a entries) = if k = key then some a else lookup k entries := by
  induction entries with
  | nil => simp [replace, lookup, eq_comm]
  | cons e rest ih => grind [replace, lookup]

theorem lookup_filter_ne (key k : Bytes) (entries : List (Bytes × α)) :
    lookup k (entries.filter (·.1 ≠ key)) = if k = key then none else lookup k entries := by
  induction entries with
  | nil => simp [lookup]
  | cons e rest ih => grind [lookup]

@[simp] theorem get?_empty (key : Bytes) : (empty : Table α).get? key = none := rfl

@[simp, grind =] theorem get?_insert (t : Table α) (key k : Bytes) (a : α) :
    (t.insert key a).get? k = if k = key then some a else t.get? k :=
  lookup_replace key k a t.entries

@[simp, grind =] theorem get?_erase (t : Table α) (key k : Bytes) :
    (t.erase key).get? k = if k = key then none else t.get? k :=
  lookup_filter_ne key k t.entries

end Table

end ScriptHost
