import Mathlib
import TieredCache.Proofs.Row.Walk

/-!
# Rows and records

Encoding and decoding undo each other.  A record has a row exactly when the
lengths of its names and values fit, and some bytes are a row exactly when they
are the row of the record that they decode to.
-/

namespace TieredCache.Row

variable {record fields : Record} {cursor : Cursor}

def chunks (record : Record) : List Bytes :=
  record.flatMap fun field => [field.name, field.value]

def oversized? (record : Record) : Option Bytes :=
  (chunks record).find? fun chunk => chunkLimit ≤ chunk.length

theorem chunkLimit_eq : chunkLimit = 2 ^ 32 := by
  decide

/-! ## Encoding -/

theorem oversized?_cons (field : Field) (rest : Record) :
    oversized? (field :: rest) =
      if chunkLimit ≤ field.name.length then some field.name
      else if chunkLimit ≤ field.value.length then some field.value
      else oversized? rest := by
  by_cases hname : chunkLimit ≤ field.name.length
  · simp [oversized?, chunks, hname]
  · by_cases hvalue : chunkLimit ≤ field.value.length
    · simp [oversized?, chunks, hname, hvalue]
    · simp [oversized?, chunks, hname, hvalue]

theorem oversized?_eq_none_iff :
    oversized? record = none ↔ ∀ field ∈ record, FieldFits field := by
  induction record with
  | nil => simp [oversized?, chunks]
  | cons field rest ih =>
      rw [oversized?_cons, List.forall_mem_cons, ← ih, FieldFits]
      by_cases hname : chunkLimit ≤ field.name.length
      · simp [hname]
      · by_cases hvalue : chunkLimit ≤ field.value.length
        · simp [hname, hvalue]
        · simp [hname, hvalue]
          omega

theorem encodeOnto_of_oversized {chunk : Bytes}
    (h : oversized? record = some chunk) (written : List Bytes) :
    encodeOnto written record = .error (.fieldTooLarge chunk.length) := by
  induction record generalizing written with
  | nil => simp [oversized?, chunks] at h
  | cons field rest ih =>
      rw [oversized?_cons] at h
      unfold encodeOnto encodeField encodeChunk
      by_cases hname : chunkLimit ≤ field.name.length
      · rw [if_pos hname] at h
        cases h
        simp [Nat.not_lt.2 hname]
      · rw [if_neg hname] at h
        rw [if_pos (Nat.not_le.1 hname)]
        by_cases hvalue : chunkLimit ≤ field.value.length
        · rw [if_pos hvalue] at h
          cases h
          simp [Nat.not_lt.2 hvalue]
        · rw [if_neg hvalue] at h
          rw [if_pos (Nat.not_le.1 hvalue)]
          exact ih h _

theorem encode_eq (record : Record) :
    encode record =
      match oversized? record with
      | none => .ok (rowBytes record)
      | some chunk => .error (.fieldTooLarge chunk.length) := by
  cases h : oversized? record with
  | none => exact encode_eq_ok_iff.2 ⟨oversized?_eq_none_iff.1 h, rfl⟩
  | some chunk => exact encodeOnto_of_oversized h []

/-! ## Sizes -/

theorem length_rowBytes (record : Record) :
    (rowBytes record).length = (record.map fieldSize).sum := by
  induction record with
  | nil => rfl
  | cons field rest ih =>
      rw [List.map_cons, List.sum_cons, ← ih]
      simp [rowBytes]

theorem size_eq_sum (record : Record) :
    size record = (record.map fieldSize).sum := by
  unfold size
  rw [← List.foldl_map, List.sum_eq_foldl]

theorem length_rowBytes_eq_size (record : Record) :
    (rowBytes record).length = size record := by
  rw [length_rowBytes, size_eq_sum]

/-! ## Decoding -/

theorem Meets.rest_eq (h : Meets cursor fields none) :
    cursor.rest = rowBytes fields := by
  generalize hending : none = ending at h
  induction h with
  | finished offset => rfl
  | damaged offset hbytes hread => cases hending
  | field offset hread hrest ih =>
      obtain ⟨rfl, -⟩ := eq_fieldBytes_of_readField hread
      simpa [rowBytes] using ih hending

theorem decode_eq_ok_iff {bytes : Bytes} :
    decode bytes = .ok record ↔ encode record = .ok bytes := by
  rw [encode_eq_ok_iff]
  constructor
  · intro h
    obtain ⟨fields, ending, hmeets⟩ := exists_meets 0 bytes
    rw [decode_of_meets hmeets] at h
    cases ending with
    | some e => cases h
    | none =>
        cases h
        exact ⟨hmeets.fits.1, hmeets.rest_eq⟩
  · rintro ⟨hfits, rfl⟩
    rw [decode_of_meets (meets_rowBytes 0 hfits)]
    rfl

/-! ## One row for each record -/

/-- A record has a row exactly when all its names and values are shorter than
`2 ^ 32` bytes; otherwise the first that is not is reported.  Its row is as long
as was foreseen, decodes to the record, and is the only one that does. -/
theorem encode_and_decode_are_inverse (record : Record) :
    ((∃ row, encode record = .ok row) ↔
      ∀ field ∈ record,
        field.name.length < 2 ^ 32 ∧ field.value.length < 2 ^ 32) ∧
    (∀ e, encode record = .error e ↔
      ∃ chunk,
        ((record.flatMap fun field => [field.name, field.value]).find?
          fun chunk => 2 ^ 32 ≤ chunk.length) = some chunk ∧
        e = .fieldTooLarge chunk.length) ∧
    (∀ row, encode record = .ok row →
      row.length = size record ∧ decode row = .ok record) ∧
    size record =
      (record.map fun field =>
        8 + field.name.length + field.value.length).sum ∧
    ∀ bytes, decode bytes = .ok record → encode record = .ok bytes := by
  refine ⟨?_, ?_, ?_, size_eq_sum record, ?_⟩
  · rw [← chunkLimit_eq]
    constructor
    · rintro ⟨row, hrow⟩
      exact (encode_eq_ok_iff.1 hrow).1
    · intro hfits
      exact ⟨_, encode_eq_ok_iff.2 ⟨hfits, rfl⟩⟩
  · intro e
    rw [← chunkLimit_eq, encode_eq]
    change _ ↔ ∃ chunk, oversized? record = some chunk ∧ _
    cases oversized? record with
    | none => simp
    | some chunk => simp [eq_comm]
  · intro row hrow
    constructor
    · rw [(encode_eq_ok_iff.1 hrow).2, length_rowBytes, size_eq_sum]
    · exact decode_eq_ok_iff.2 hrow
  · intro bytes hbytes
    exact decode_eq_ok_iff.1 hbytes

/-- Equal names and chunks of length zero take part like any others. -/
example :
    decode [0, 0, 0, 0, 1, 0, 0, 0, 7, 0, 0, 0, 0, 0, 0, 0, 0] =
      .ok [⟨[], [7]⟩, ⟨[], []⟩] :=
  decode_eq_ok_iff.2 rfl

end TieredCache.Row
