import ScriptHost.Cache.Archive
import Mathlib.Tactic.Ring

set_option autoImplicit false

namespace ScriptHost

namespace Cbor

variable {bound depth : Nat} {rest : Bytes}

theorem bigEndian_succ (width n : Nat) :
    bigEndian (width + 1) n = (n / 256 ^ width).toUInt8 :: bigEndian width n := by
  simp [bigEndian, List.range_succ]

@[simp] theorem length_bigEndian (width n : Nat) : (bigEndian width n).length = width := by
  simp [bigEndian]

theorem foldl_bigEndian (width n high : Nat) :
    (bigEndian width n).foldl (fun n b => 256 * n + b.toNat) high =
      high * 256 ^ width + n % 256 ^ width := by
  induction width generalizing high with
  | zero => simp [bigEndian, Nat.mod_one]
  | succ width ih =>
    have digit : (n / 256 ^ width).toUInt8.toNat = n / 256 ^ width % 256 := by simp
    have split : n % 256 ^ (width + 1) = 256 ^ width * (n / 256 ^ width % 256) + n % 256 ^ width := by
      rw [Nat.pow_succ, Nat.mod_mul, Nat.add_comm]
    rw [bigEndian_succ, List.foldl_cons, ih, digit, split, Nat.pow_succ]
    ring

theorem ofBigEndian_bigEndian {width n : Nat} (fits : n < 256 ^ width) :
    ofBigEndian (bigEndian width n) = n := by
  simp [ofBigEndian, foldl_bigEndian, Nat.mod_eq_of_lt fits]

def headLimit : Nat := 2 ^ 64

theorem argument_wide {info width n : Nat} (fits : n < 256 ^ width)
    (wide : info = 24 ∧ width = 1 ∨ info = 25 ∧ width = 2 ∨ info = 26 ∧ width = 4 ∨
      info = 27 ∧ width = 8) :
    argument info (bigEndian width n ++ rest) = some (some n, rest) := by
  have taken : (bigEndian width n ++ rest).take width = bigEndian width n := by
    simp
  have left : (bigEndian width n ++ rest).drop width = rest := by
    simp
  have enough : ¬ (bigEndian width n ++ rest).length < width := by simp
  rcases wide with ⟨rfl, rfl⟩ | ⟨rfl, rfl⟩ | ⟨rfl, rfl⟩ | ⟨rfl, rfl⟩ <;>
    simp only [argument, taken, left, if_neg enough, ofBigEndian_bigEndian fits] <;> rfl

theorem toNat_first {major info : Nat} (kind : major < 8) (small : info < 32) :
    ((32 * major + info).toUInt8).toNat = 32 * major + info := by
  have fits : 32 * major + info < 256 := by omega
  simp [Nat.mod_eq_of_lt fits]

theorem head_eq {major n : Nat} (kind : major < 8) (fits : n < headLimit) :
    ∃ first more, head major n = first :: more ∧ first.toNat / 32 = major ∧
      ∀ rest, argument (first.toNat % 32) (more ++ rest) = some (some n, rest) := by
  -- the four widths of an argument that does not fit the first byte
  have wide {info width : Nat} (bounded : n < 256 ^ width)
      (known : info = 24 ∧ width = 1 ∨ info = 25 ∧ width = 2 ∨ info = 26 ∧ width = 4 ∨
        info = 27 ∧ width = 8) :
      ((32 * major + info).toUInt8).toNat / 32 = major ∧
        ∀ rest, argument (((32 * major + info).toUInt8).toNat % 32) (bigEndian width n ++ rest) =
          some (some n, rest) := by
    have first := toNat_first kind (show info < 32 by omega)
    rw [first, show (32 * major + info) % 32 = info by omega]
    exact ⟨by omega, fun rest => argument_wide bounded known⟩
  unfold head
  by_cases short : n < 24
  next =>
    have first := toNat_first kind (show n < 32 by omega)
    refine ⟨_, [], if_pos short, ?_, fun rest => ?_⟩
    · rw [first]
      omega
    · rw [first, show (32 * major + n) % 32 = n by omega, argument, if_pos short, List.nil_append]
  next =>
    rw [if_neg short]
    by_cases one : n < 2 ^ 8
    next => exact ⟨_, _, if_pos one, wide one (by simp)⟩
    next =>
      rw [if_neg one]
      by_cases two : n < 2 ^ 16
      next => exact ⟨_, _, if_pos two, wide two (by simp)⟩
      next =>
        rw [if_neg two]
        by_cases four : n < 2 ^ 32
        next => exact ⟨_, _, if_pos four, wide four (by simp)⟩
        next => exact ⟨_, _, if_neg four, wide fits (by simp)⟩

def IsFlat : Cbor → Prop
  | .unsigned n | .negative n => n < headLimit
  | .bytes s | .text [s] => s.length < headLimit
  | .simple n => n < 24
  | _ => False

theorem takeString_append (s rest : Bytes) : takeString s.length (s ++ rest) = some (s, rest) := by
  simp [takeString]

theorem item_flat {x : Cbor} (flat : x.IsFlat) :
    item false (bound + 1) depth (encode x ++ rest) = some (x, rest) := by
  cases x with
  | unsigned n =>
    obtain ⟨first, more, written, kind, reads⟩ := head_eq (show 0 < 8 by omega) flat
    simp [encode, written, item, kind, reads]
  | negative n =>
    obtain ⟨first, more, written, kind, reads⟩ := head_eq (show 1 < 8 by omega) flat
    simp [encode, written, item, kind, reads]
  | bytes s =>
    obtain ⟨first, more, written, kind, reads⟩ := head_eq (show 2 < 8 by omega) flat
    simp [encode, written, item, kind, reads, takeString_append]
  | text parts =>
    match parts, flat with
    | [s], flat =>
      obtain ⟨first, more, written, kind, reads⟩ := head_eq (show 3 < 8 by omega) flat
      simp [encode, written, item, kind, reads, takeString_append]
  | simple n =>
    have small : n < 24 := flat
    have first := toNat_first (show 7 < 8 by omega) (show n < 32 by omega)
    have kind : (32 * 7 + n) / 32 = 7 := by omega
    have info : (32 * 7 + n) % 32 = n := by omega
    rw [encode, head, if_pos small, List.singleton_append, item, first, kind, info]
    simp [argument, simpleItem, small]
  | array | map | tag | float => exact flat.elim

theorem IsFlat.length_encode_pos {x : Cbor} (flat : x.IsFlat) : 0 < (encode x).length := by
  have read : item false 1 0 (encode x ++ []) = some (x, []) := item_flat flat
  rw [List.length_pos_iff]
  intro none
  simp [none, item] at read

def AllFlat (entries : List (Cbor × Cbor)) : Prop :=
  ∀ e ∈ entries, e.1.IsFlat ∧ e.2.IsFlat

theorem length_encodeEntries {pairs : List (Cbor × Cbor)} (flat : AllFlat pairs) :
    2 * pairs.length ≤ (encodeEntries pairs).length := by
  induction pairs with
  | nil => simp
  | cons e pairs ih =>
    have rest := ih fun x member => flat x (List.mem_cons_of_mem _ member)
    have key := (flat e List.mem_cons_self).1.length_encode_pos
    have value := (flat e List.mem_cons_self).2.length_encode_pos
    simp only [encodeEntries, List.length_append, List.length_cons]
    omega

theorem entries_flat {pairs : List (Cbor × Cbor)} (flat : AllFlat pairs)
    (enough : pairs.length < bound) :
    entries bound depth (some pairs.length) (encodeEntries pairs ++ rest) = some (pairs, rest) := by
  induction pairs generalizing bound with
  | nil =>
    obtain ⟨bound, rfl⟩ := Nat.exists_eq_succ_of_ne_zero (Nat.ne_of_gt enough)
    simp [entries, encodeEntries]
  | cons e pairs ih =>
    obtain ⟨here, later⟩ := List.forall_mem_cons.1 flat
    simp only [List.length_cons] at enough ⊢
    obtain ⟨bound, rfl⟩ : ∃ n, bound = n + 2 := ⟨bound - 2, by omega⟩
    have remaining := @ih (bound + 1) later (by omega)
    simp [entries, encodeEntries, List.append_assoc, item_flat here.1, item_flat here.2, remaining]

theorem decode_encode_map {pairs : List (Cbor × Cbor)} (flat : AllFlat pairs)
    (short : pairs.length ≤ longest) : decode (encode (.map pairs)) = some (.map pairs) := by
  have fits : pairs.length < headLimit := by
    unfold longest at short
    unfold headLimit
    omega
  have long := length_encodeEntries flat
  obtain ⟨first, more, written, kind, reads⟩ := head_eq (show 5 < 8 by omega) fits
  have room : pairs.length < 2 * (encode (.map pairs)).length + 1 := by
    simp only [encode, List.length_append]
    omega
  have read := @entries_flat _ (deepest - 1) [] _ flat room
  rw [List.append_nil, show deepest - 1 = 31 from rfl] at read
  unfold decode
  generalize (encode (.map pairs)).length = size at read
  simp [encode, written, item, kind, reads, deepest, read, short.not_gt]

end Cbor

namespace Envelope

open Cbor

@[simp] theorem digest32_toList (digest : Vector UInt8 32) : digest32 digest.toList = digest := by
  ext i inside
  simp [digest32]

theorem ofInt_flat (n : Int64) : (ofInt n).IsFlat := by
  have low := Int64.le_toInt n
  have high := Int64.toInt_lt n
  unfold ofInt
  split <;> simp only [IsFlat, headLimit] <;> omega

structure IsWritable (e : Envelope) : Prop where
  text : e.name.isText
  name : e.name.length < headLimit
  sourceDigest : ∀ digest ∈ e.sourceDigest, digest.length < headLimit
  payload : e.payload.length < headLimit

variable {e : Envelope}

def source : Option Bytes → Cbor
  | some digest => .bytes digest
  | none => null

def toEntries (e : Envelope) : List (Cbor × Cbor) :=
  [(.unsigned 1, ofInt e.version), (.unsigned 2, .text [e.name]),
    (.unsigned 3, source e.sourceDigest), (.unsigned 4, .bytes e.payloadDigest.toList),
    (.unsigned 5, ofInt e.storedAt)]
    ++ if e.payload.isEmpty then [] else [(.unsigned 6, .bytes e.payload)]

theorem toCbor_eq (e : Envelope) : e.toCbor = .map e.toEntries := rfl

theorem toEntries_flat (name : e.name.length < headLimit)
    (sourceDigest : ∀ digest ∈ e.sourceDigest, digest.length < headLimit)
    (payload : e.payload.length < headLimit) : AllFlat e.toEntries := by
  have key : ∀ n < 7, (unsigned n).IsFlat := fun n small => by
    simp only [IsFlat, headLimit]
    omega
  have digest : (source e.sourceDigest).IsFlat := by
    cases given : e.sourceDigest with
    | none => simp [source, null, IsFlat]
    | some digest => exact sourceDigest digest given
  have payloadDigest : (bytes e.payloadDigest.toList).IsFlat := by simp [IsFlat, headLimit]
  intro pair member
  simp only [toEntries, List.cons_append, List.nil_append, List.mem_cons] at member
  rcases member with rfl | rfl | rfl | rfl | rfl | last
  · exact ⟨key 1 (by omega), ofInt_flat _⟩
  · exact ⟨key 2 (by omega), name⟩
  · exact ⟨key 3 (by omega), digest⟩
  · exact ⟨key 4 (by omega), payloadDigest⟩
  · exact ⟨key 5 (by omega), ofInt_flat _⟩
  · split at last
    · simp at last
    · obtain rfl := List.mem_singleton.1 last
      exact ⟨key 6 (by omega), payload⟩

theorem toEntries_short (e : Envelope) : e.toEntries.length ≤ longest := by
  unfold toEntries longest
  split <;> simp

theorem text?_text {s : Bytes} (text : s.isText) : text? (.text [s]) = some s := by
  simp [text?, untagged, wellFormed?, text]

theorem bytes?_bytes (limit : Nat) (s : Bytes) : bytes? limit (.bytes s) = some (some s) := by
  simp [bytes?, untagged]

theorem bytes?_source (limit : Nat) (digest : Option Bytes) :
    bytes? limit (source digest) = some digest := by
  cases digest <;> simp [bytes?, untagged, source, null, isNothing]

theorem ofEntries_toEntries (text : e.name.isText) : ofEntries e.toEntries = some e := by
  obtain ⟨version, name, sourceDigest, payloadDigest, storedAt, payload⟩ := e
  -- an empty payload has no entry, and a missing entry reads as an empty payload
  cases payload with
  | nil =>
    simp [ofEntries, toEntries, field?, isKey, Archive.int?_ofInt, text?_text text, bytes?_source,
      bytes?_bytes]
  | cons first payload =>
    simp [ofEntries, toEntries, field?, isKey, Archive.int?_ofInt, text?_text text, bytes?_source,
      bytes?_bytes]

structure IsShort (e : Envelope) : Prop where
  name : e.name.length < headLimit
  sourceDigest : ∀ digest ∈ e.sourceDigest, digest.length < headLimit
  payload : e.payload.length < headLimit

theorem IsShort.decode_eq (short : e.IsShort) :
    Cbor.decode e.encode = some (.map e.toEntries) := by
  have flat := toEntries_flat short.name short.sourceDigest short.payload
  rw [encode, toCbor_eq, decode_encode_map flat e.toEntries_short]

theorem IsWritable.isShort (writable : e.IsWritable) : e.IsShort :=
  ⟨writable.name, writable.sourceDigest, writable.payload⟩

theorem decode_encode (writable : e.IsWritable) : decode e.encode = some e := by
  rw [decode, writable.isShort.decode_eq]
  exact ofEntries_toEntries writable.text

theorem decode_encode_of_not_text (short : e.IsShort) (broken : ¬ e.name.isText) :
    decode e.encode = none := by
  rw [decode, short.decode_eq]
  show ofEntries e.toEntries = none
  have unread : text? (.text [e.name]) = none := by simp [text?, untagged, wellFormed?, broken]
  simp [ofEntries, toEntries, field?, unread]

theorem ofInt_injective {m n : Int64} (same : ofInt m = ofInt n) : m = n := by
  have read := congrArg int? same
  simpa [Archive.int?_ofInt] using read

theorem source_injective {a b : Option Bytes} (same : source a = source b) : a = b := by
  have read := congrArg (bytes? longest) same
  simpa [bytes?_source] using read

theorem toEntries_injective {f : Envelope} (same : e.toEntries = f.toEntries) : e = f := by
  obtain ⟨version, name, sourceDigest, payloadDigest, storedAt, payload⟩ := e
  obtain ⟨version', name', sourceDigest', payloadDigest', storedAt', payload'⟩ := f
  simp only [toEntries, List.cons_append, List.nil_append, List.cons.injEq, Prod.mk.injEq, true_and,
    text.injEq, bytes.injEq, and_true, Vector.toList_inj] at same
  obtain ⟨versions, rfl, sources, rfl, times, payloads⟩ := same
  obtain rfl := ofInt_injective versions
  obtain rfl := source_injective sources
  obtain rfl := ofInt_injective times
  cases payload <;> cases payload' <;> simp at payloads
  next => rfl
  next =>
    obtain ⟨rfl, rfl⟩ := payloads
    rfl

theorem field?_payload (e : Envelope) :
    field? e.toEntries 6 = if e.payload = [] then none else some (.bytes e.payload) := by
  cases given : e.payload <;> simp [field?, toEntries, given]

/-- An envelope with a name that is text is read back as it was written, except that an empty payload
is then a missing one. Whatever the name is, no other envelope has the same bytes. -/
theorem encode_faithful (short : e.IsShort) :
    (e.name.isText → decode e.encode = some e) ∧
    (∃ entries, Cbor.decode e.encode = some (.map entries) ∧
      ((field? entries 6).isSome ↔ e.payload ≠ [])) ∧
    ∀ f : Envelope, f.IsShort → f.encode = e.encode → f = e := by
  refine ⟨fun text => ?_, ⟨_, short.decode_eq, ?_⟩, fun f limits same => ?_⟩
  · exact decode_encode ⟨text, short.name, short.sourceDigest, short.payload⟩
  · rw [field?_payload]
    split <;> simp_all
  · have entries := limits.decode_eq.symm.trans (same ▸ short.decode_eq)
    simp only [Option.some.injEq, map.injEq] at entries
    exact toEntries_injective entries

def hollow : Envelope := ⟨-1, "é", some [], digest32 [1, 2, 3], -86400, []⟩

theorem encode_faithful_hollow :
    hollow.IsShort ∧ decode hollow.encode = some hollow ∧
      ∀ f : Envelope, f.IsShort → f.encode = hollow.encode → f = hollow := by
  have short : hollow.IsShort := ⟨by decide, by decide, by decide⟩
  obtain ⟨back, -, unique⟩ := encode_faithful short
  exact ⟨short, back (by decide), unique⟩

end Envelope

end ScriptHost
