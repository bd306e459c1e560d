import ScriptHost.Cache.Store

set_option autoImplicit false

namespace ScriptHost.Archive

def ofRow (entry : Bytes × Row) : Cbor :=
  let (name, row) := entry
  .array [.bytes name, .bytes row.sourceDigest, .bytes row.envelope, Envelope.ofInt row.storedAt]

def row? : Cbor → Option (Bytes × Row)
  | .array [.bytes name, .bytes sourceDigest, .bytes envelope, time] => do
    return (name, ⟨sourceDigest, envelope, ← Envelope.int? time⟩)
  | _ => none

def write (d : Database) : Bytes := (Cbor.array (d.entries.map ofRow)).encode

def read? (content : Bytes) : Option Database :=
  match Cbor.decode content with
  | some (.array items) => (items.mapM row?).map Table.ofList
  | _ => none

theorem word?_toInt (n : Int64) : Envelope.word? n.toInt = some n := by
  have low := Int64.le_toInt n
  have high := Int64.toInt_lt n
  rw [Envelope.word?, if_pos ⟨low, high⟩, Int64.ofInt_toInt]

theorem int?_ofInt (n : Int64) : Envelope.int? (Envelope.ofInt n) = some n := by
  by_cases nonneg : 0 ≤ n
  · have back : (n.toInt.toNat : Int) = n.toInt :=
      Int.toNat_of_nonneg (Int64.le_iff_toInt_le.mp nonneg)
    simp only [Envelope.ofInt, nonneg, if_true, Envelope.int?, Envelope.untagged, back,
      word?_toInt]
  · have negative : n.toInt < 0 := by
      simpa using mt Int64.le_iff_toInt_le.mpr nonneg
    have back : -1 - ((-1 - n.toInt).toNat : Int) = n.toInt := by omega
    simp only [Envelope.ofInt, nonneg, if_false, Envelope.int?, Envelope.untagged, back,
      word?_toInt]

theorem row?_ofRow (entry : Bytes × Row) : row? (ofRow entry) = some entry := by
  obtain ⟨name, digest, envelope, time⟩ := entry
  simp [ofRow, row?, int?_ofInt]

end ScriptHost.Archive
