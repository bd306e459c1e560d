import ScriptHost.Table

set_option autoImplicit false

namespace ScriptHost

structure SearchPath where
  directories : List Bytes
  index : Table Unit
  distinct : directories.Nodup
  indexed : ∀ d, index.contains d ↔ d ∈ directories

namespace SearchPath

def empty : SearchPath := ⟨[], .empty, by simp, by simp [Table.contains]⟩

instance : Inhabited SearchPath := ⟨empty⟩

theorem nodup_concat {directories : List Bytes} {d : Bytes} (h : directories.Nodup)
    (new : d ∉ directories) : (directories ++ [d]).Nodup := by
  rw [List.nodup_append]
  refine ⟨h, by simp, ?_⟩
  intro a ha b hb same
  rw [List.mem_singleton] at hb
  exact new (hb ▸ same ▸ ha)

theorem indexed_concat {directories : List Bytes} {index : Table Unit} (d : Bytes)
    (indexed : ∀ e, index.contains e ↔ e ∈ directories) (e : Bytes) :
    (index.insert d ()).contains e ↔ e ∈ directories ++ [d] := by
  have old := indexed e
  unfold Table.contains at old ⊢
  rw [Table.get?_insert, List.mem_append, List.mem_singleton]
  split
  next same => simp [same]
  next other => simp [other, old]

def add (p : SearchPath) (d : Bytes) : SearchPath :=
  if known : p.index.contains d then p
  else ⟨p.directories ++ [d], p.index.insert d (),
    nodup_concat p.distinct (mt (p.indexed d).2 known), indexed_concat d p.indexed⟩

theorem directories_add (p : SearchPath) (d : Bytes) :
    (p.add d).directories = if d ∈ p.directories then p.directories else p.directories ++ [d] := by
  unfold add
  by_cases known : p.index.contains d
  · rw [dif_pos known, if_pos ((p.indexed d).1 known)]
  · rw [dif_neg known, if_neg (mt (p.indexed d).2 known)]

def addAll (p : SearchPath) (directories : List Bytes) : SearchPath :=
  directories.foldl add p

def ofList (directories : List Bytes) : SearchPath :=
  empty.addAll (directories.filter (!·.isEmpty))

end SearchPath

end ScriptHost
