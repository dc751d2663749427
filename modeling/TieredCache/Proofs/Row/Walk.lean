import Mathlib
import TieredCache.Row.Selection

/-!
# Walks over rows

A walk from a cursor meets fields until the row ends or turns out to be damaged.
What it meets from the start is the longest row at the front of the bytes.
-/

namespace TieredCache.Row

/-! ## Encoded records -/

def rowBytes (record : Record) : Bytes := (record.map fieldBytes).flatten

theorem encodeField_eq_ok_iff {field : Field} {bytes : Bytes} :
    encodeField field = .ok bytes ↔
      FieldFits field ∧ bytes = fieldBytes field := by
  unfold encodeField encodeChunk FieldFits fieldBytes
  by_cases hname : field.name.length < chunkLimit
  · by_cases hvalue : field.value.length < chunkLimit
    · simp [hname, hvalue, eq_comm]
    · simp [hname, hvalue]
  · simp [hname]

theorem encodeOnto_eq_ok_iff {record : Record} {row : Bytes}
    (written : List Bytes) :
    encodeOnto written record = .ok row ↔
      (∀ field ∈ record, FieldFits field) ∧
        row = written.reverse.flatten ++ rowBytes record := by
  induction record generalizing written with
  | nil => simp [encodeOnto, rowBytes, eq_comm]
  | cons field rest ih =>
      unfold encodeOnto
      cases hfield : encodeField field with
      | error e =>
          have hfits : ¬FieldFits field := fun hfits => by
            rw [encodeField_eq_ok_iff.2 ⟨hfits, rfl⟩] at hfield
            contradiction
          simp [hfits]
      | ok bytes =>
          obtain ⟨hfits, rfl⟩ := encodeField_eq_ok_iff.1 hfield
          simp only
          rw [ih]
          simp [hfits, rowBytes, List.append_assoc]

theorem encode_eq_ok_iff {record : Record} {row : Bytes} :
    encode record = .ok row ↔
      (∀ field ∈ record, FieldFits field) ∧ row = rowBytes record := by
  unfold encode
  rw [encodeOnto_eq_ok_iff]
  rfl

/-- The record of the longest row at the front of some bytes. -/
def IsLongestRow (bytes : Bytes) (record : Record) : Prop :=
  ∃ row, encode record = .ok row ∧ row <+: bytes ∧
    ∀ other row', encode other = .ok row' → row' <+: bytes →
      row'.length ≤ row.length

/-! ## Walking -/

/-- The fields that a walk meets from a cursor on, and the error that it ends
with if the row is damaged after them. -/
inductive Meets : Cursor → Record → Option RowError → Prop where
  | finished (offset : Nat) : Meets ⟨offset, []⟩ [] none
  | damaged (offset : Nat) {bytes : Bytes} {damage : Damage}
      (hbytes : bytes ≠ []) (hread : readField bytes = .error damage) :
      Meets ⟨offset, bytes⟩ [] (some (.malformed offset damage))
  | field (offset : Nat) {bytes rest : Bytes} {field : Field}
      {fields : Record} {ending : Option RowError}
      (hread : readField bytes = .ok (field, rest))
      (hrest : Meets ⟨offset + fieldSize field, rest⟩ fields ending) :
      Meets ⟨offset, bytes⟩ (field :: fields) ending

theorem exists_meets (offset : Nat) (bytes : Bytes) :
    ∃ fields ending, Meets ⟨offset, bytes⟩ fields ending := by
  induction hlength : bytes.length using Nat.strong_induction_on
    generalizing offset bytes with
  | _ length ih =>
      by_cases hbytes : bytes = []
      · subst hbytes
        exact ⟨[], none, .finished offset⟩
      · cases hread : readField bytes with
        | error damage => exact ⟨[], _, .damaged offset hbytes hread⟩
        | ok step =>
            obtain ⟨field, rest⟩ := step
            have hshorter : rest.length < length :=
              hlength ▸ length_lt_of_readField hread
            obtain ⟨fields, ending, hrest⟩ :=
              ih rest.length hshorter (offset + fieldSize field) rest rfl
            exact ⟨field :: fields, ending, .field offset hread hrest⟩

theorem readField_nil : readField [] = .error .truncated := by
  rfl

theorem ne_nil_of_readField {bytes rest : Bytes} {field : Field}
    (h : readField bytes = .ok (field, rest)) : bytes ≠ [] := by
  rintro rfl
  rw [readField_nil] at h
  contradiction

variable {cursor : Cursor} {fields record : Record} {ending : Option RowError}

theorem Meets.malformed {e : RowError} (h : Meets cursor fields (some e)) :
    ∃ offset damage, e = .malformed offset damage := by
  generalize hending : some e = ending at h
  induction h with
  | finished offset => cases hending
  | damaged offset hbytes hread =>
      cases hending
      exact ⟨_, _, rfl⟩
  | field offset hread hrest ih => exact ih hending

/-! ## Decoding along a walk -/

def outcome (fields : Record) : Option RowError → Except RowError Record
  | none => .ok fields
  | some e => .error e

section Steps

variable {offset : Nat} {bytes rest : Bytes} {field : Field} {damage : Damage}

theorem decodeFrom_damaged (hbytes : bytes ≠ [])
    (hread : readField bytes = .error damage) (before : Record) :
    decodeFrom offset before bytes = .error (.malformed offset damage) := by
  rw [decodeFrom, if_neg (by simpa using hbytes)]
  split
  · simp_all
  · simp_all

theorem decodeFrom_field (hread : readField bytes = .ok (field, rest))
    (before : Record) :
    decodeFrom offset before bytes =
      decodeFrom (offset + fieldSize field) (field :: before) rest := by
  rw [decodeFrom, if_neg (by simpa using ne_nil_of_readField hread)]
  split
  · simp_all
  · simp_all

theorem walkTo_damaged (hbytes : bytes ≠ [])
    (hread : readField bytes = .error damage) (name : Bytes)
    (passed : Record) :
    walkTo name passed offset bytes = .error (.malformed offset damage) := by
  rw [walkTo, if_neg (by simpa using hbytes)]
  split
  · simp_all
  · simp_all

theorem walkTo_field (hread : readField bytes = .ok (field, rest))
    (name : Bytes) (passed : Record) :
    walkTo name passed offset bytes =
      if field.name = name then
        .ok ⟨some field, passed.reverse, ⟨offset + fieldSize field, rest⟩⟩
      else walkTo name (field :: passed) (offset + fieldSize field) rest := by
  rw [walkTo, if_neg (by simpa using ne_nil_of_readField hread)]
  split
  · simp_all
  · simp_all

end Steps

theorem decodeFrom_of_meets (h : Meets cursor fields ending)
    (before : Record) :
    decodeFrom cursor.offset before cursor.rest =
      outcome (before.reverse ++ fields) ending := by
  induction h generalizing before with
  | finished offset =>
      rw [decodeFrom]
      simp [outcome]
  | damaged offset hbytes hread =>
      rw [decodeFrom_damaged hbytes hread]
      rfl
  | field offset hread hrest ih =>
      rw [decodeFrom_field hread, ih, List.reverse_cons, List.append_assoc]
      rfl

theorem decode_of_meets {bytes : Bytes}
    (h : Meets (Cursor.start bytes) fields ending) :
    decode bytes = outcome fields ending :=
  decodeFrom_of_meets h []

theorem meets_rowBytes (offset : Nat)
    (hfits : ∀ field ∈ record, FieldFits field) :
    Meets ⟨offset, rowBytes record⟩ record none := by
  induction record generalizing offset with
  | nil => exact .finished offset
  | cons field rest ih =>
      have hread : readField (rowBytes (field :: rest)) =
          .ok (field, rowBytes rest) := by
        apply readField_fieldBytes
        exact hfits field List.mem_cons_self
      exact .field offset hread
        (ih _ fun other hother => hfits other (List.mem_cons_of_mem _ hother))

/-! ## The longest row -/

theorem Meets.fits (h : Meets cursor fields ending) :
    (∀ field ∈ fields, FieldFits field) ∧ rowBytes fields <+: cursor.rest := by
  induction h with
  | finished offset => simp [rowBytes]
  | damaged offset hbytes hread => simp [rowBytes]
  | field offset hread hrest ih =>
      obtain ⟨hfits, hfront⟩ := ih
      obtain ⟨rfl, hfield⟩ := eq_fieldBytes_of_readField hread
      constructor
      · intro other hother
        rcases List.mem_cons.1 hother with rfl | hother
        · exact hfield
        · exact hfits other hother
      · exact (List.prefix_append_right_inj _).2 hfront

theorem Meets.prefix_of_row (h : Meets cursor fields ending)
    (hfits : ∀ field ∈ record, FieldFits field)
    (hrow : rowBytes record <+: cursor.rest) : record <+: fields := by
  induction h generalizing record with
  | finished offset =>
      cases record with
      | nil => exact List.nil_prefix
      | cons field rest =>
          have hlength := hrow.length_le
          simp [rowBytes, fieldSize, fieldOverhead] at hlength
  | @damaged offset bytes damage hbytes hread =>
      cases record with
      | nil => exact List.nil_prefix
      | cons field rest =>
          obtain ⟨after, hafter⟩ := hrow
          have hfield := readField_fieldBytes (rowBytes rest ++ after)
            (hfits field List.mem_cons_self)
          have hbytes :
              bytes = fieldBytes field ++ (rowBytes rest ++ after) := by
            rw [← List.append_assoc]
            exact hafter.symm
          rw [← hbytes, hread] at hfield
          contradiction
  | @field offset bytes rest field fields ending hread hrest ih =>
      cases record with
      | nil => exact List.nil_prefix
      | cons first others =>
          obtain ⟨after, hafter⟩ := hrow
          have hfirst := readField_fieldBytes (rowBytes others ++ after)
            (hfits first List.mem_cons_self)
          have hbytes :
              bytes = fieldBytes first ++ (rowBytes others ++ after) := by
            rw [← List.append_assoc]
            exact hafter.symm
          rw [← hbytes, hread] at hfirst
          cases hfirst
          apply List.cons_prefix_cons.2
          refine ⟨rfl, ih ?_ (List.prefix_append _ _)⟩
          intro other hother
          exact hfits other (List.mem_cons_of_mem _ hother)

theorem length_rowBytes_lt (front : Record) {back : Record}
    (hback : back ≠ []) :
    (rowBytes front).length < (rowBytes (front ++ back)).length := by
  cases back with
  | nil => contradiction
  | cons field rest =>
      simp [rowBytes, fieldSize, fieldOverhead]

theorem Meets.isLongestRow_iff {bytes : Bytes}
    (h : Meets (Cursor.start bytes) fields ending) :
    IsLongestRow bytes record ↔ record = fields := by
  obtain ⟨hfits, hfront⟩ := h.fits
  have hencode : encode fields = .ok (rowBytes fields) :=
    encode_eq_ok_iff.2 ⟨hfits, rfl⟩
  constructor
  · rintro ⟨row, hrow, hbytes, hlongest⟩
    obtain ⟨hrecord, rfl⟩ := encode_eq_ok_iff.1 hrow
    obtain ⟨back, rfl⟩ := h.prefix_of_row hrecord hbytes
    have hlength := hlongest _ _ hencode hfront
    by_cases hback : back = []
    · rw [hback, List.append_nil]
    · have hlonger := length_rowBytes_lt record hback
      omega
  · rintro rfl
    refine ⟨_, hencode, hfront, ?_⟩
    intro other row' hother hbytes
    obtain ⟨hrecord, rfl⟩ := encode_eq_ok_iff.1 hother
    obtain ⟨back, rfl⟩ := h.prefix_of_row hrecord hbytes
    simp [rowBytes]

/-! ## Looking for a name -/

theorem Meets.walkTo_found {name : Bytes} {front back : Record}
    {field : Field} (h : Meets cursor (front ++ field :: back) ending)
    (hfront : ∀ other ∈ front, other.name ≠ name) (hname : field.name = name)
    (passed : Record) :
    ∃ after : Cursor,
      walkTo name passed cursor.offset cursor.rest =
        .ok ⟨some field, passed.reverse ++ front, after⟩ ∧
      Meets after back ending := by
  induction front generalizing cursor passed with
  | nil =>
      cases h with
      | @field offset bytes rest _ _ _ hread hrest =>
          refine ⟨⟨offset + fieldSize field, rest⟩, ?_, hrest⟩
          rw [walkTo_field hread, if_pos hname, List.append_nil]
  | cons first others ih =>
      cases h with
      | field offset hread hrest =>
          obtain ⟨after, hwalk, hmeets⟩ := ih hrest
            (fun other hother => hfront other (List.mem_cons_of_mem _ hother))
            (first :: passed)
          refine ⟨after, ?_, hmeets⟩
          rw [walkTo_field hread, if_neg (hfront first List.mem_cons_self),
            hwalk, List.reverse_cons, List.append_assoc]
          rfl

theorem Meets.walkTo_passed {name : Bytes} (h : Meets cursor fields none)
    (habsent : ∀ other ∈ fields, other.name ≠ name) (passed : Record) :
    ∃ after : Cursor,
      walkTo name passed cursor.offset cursor.rest =
        .ok ⟨none, passed.reverse ++ fields, after⟩ ∧ Meets after [] none := by
  generalize hending : none = ending at h
  induction h generalizing passed with
  | finished offset =>
      refine ⟨⟨offset, []⟩, ?_, .finished offset⟩
      rw [walkTo]
      simp
  | damaged offset hbytes hread => cases hending
  | @field offset bytes rest field fields ending hread hrest ih =>
      obtain ⟨after, hwalk, hmeets⟩ := ih
        (fun other hother => habsent other (List.mem_cons_of_mem _ hother))
        (field :: passed) hending
      refine ⟨after, ?_, hmeets⟩
      rw [walkTo_field hread, if_neg (habsent field List.mem_cons_self), hwalk,
        List.reverse_cons, List.append_assoc]
      rfl

theorem Meets.walkTo_damage {name : Bytes} {e : RowError}
    (h : Meets cursor fields (some e))
    (habsent : ∀ other ∈ fields, other.name ≠ name) (passed : Record) :
    walkTo name passed cursor.offset cursor.rest = .error e := by
  generalize hending : some e = ending at h
  induction h generalizing passed with
  | finished offset => cases hending
  | damaged offset hbytes hread =>
      cases hending
      exact walkTo_damaged hbytes hread name passed
  | @field offset bytes rest field fields ending hread hrest ih =>
      rw [walkTo_field hread, if_neg (habsent field List.mem_cons_self)]
      exact ih
        (fun other hother => habsent other (List.mem_cons_of_mem _ hother))
        (field :: passed) hending

end TieredCache.Row
