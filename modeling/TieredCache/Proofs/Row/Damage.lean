import Mathlib
import TieredCache.Proofs.Row.RoundTrip

/-!
# Damaged rows

Bytes that are no row have a longest row at their front, and the damage is in
the field that would come next: one of its two lengths is cut short, or shows
more bytes than follow it.  The damage stays the same when a row is put before.
-/

namespace TieredCache.Row

variable {record fields : Record} {bytes tail : Bytes} {damage : Damage}
  {e : RowError}

/-! ## One field -/

/-- The bytes from one of the two lengths of a field on. -/
def LengthAt (bytes tail : Bytes) : Prop :=
  tail = bytes ∨
    ∃ name : Bytes, name.length < chunkLimit ∧ bytes = frame name ++ tail

theorem readChunk_eq_error_iff :
    readChunk bytes = .error damage ↔
      bytes.length < lengthWidth ∧ damage = .truncated ∨
      ∃ shown after : Bytes, bytes = shown ++ after ∧
        shown.length = lengthWidth ∧
        after.length < shown.toNatLE ∧
        damage = .overrun (shown.toNatLE - after.length) := by
  constructor
  · intro h
    unfold readChunk at h
    split at h
    · rename_i hshown
      cases h
      exact .inl ⟨Bytes.splitAt?_eq_none_iff.1 hshown, rfl⟩
    · rename_i shown after hshown
      obtain ⟨hwidth, rfl⟩ := Bytes.splitAt?_eq_some_iff.1 hshown
      simp only at h
      split at h
      · rename_i hlong
        cases h
        have hmissing := Bytes.splitAt?_eq_none_iff.1 hlong
        exact .inr ⟨shown, after, rfl, hwidth, hmissing, rfl⟩
      · cases h
  · rintro (⟨hshort, rfl⟩ | ⟨shown, after, rfl, hwidth, hmissing, rfl⟩)
    · rw [readChunk, Bytes.splitAt?_eq_none_iff.2 hshort]
    · have hshown := Bytes.splitAt?_append shown after
      rw [hwidth] at hshown
      simp only [readChunk, hshown, Bytes.splitAt?_eq_none_iff.2 hmissing]

theorem readField_eq_error_iff :
    readField bytes = .error damage ↔
      ∃ tail, LengthAt bytes tail ∧ readChunk tail = .error damage := by
  constructor
  · intro h
    unfold readField at h
    split at h
    · rename_i hname
      cases h
      exact ⟨bytes, .inl rfl, hname⟩
    · rename_i name rest hname
      obtain ⟨rfl, hfits⟩ := eq_frame_of_readChunk hname
      split at h
      · rename_i hvalue
        cases h
        exact ⟨rest, .inr ⟨name, hfits, rfl⟩, hvalue⟩
      · cases h
  · rintro ⟨tail, rfl | ⟨name, hfits, rfl⟩, hread⟩
    · rw [readField, hread]
    · simp only [readField, readChunk_frame tail hfits, hread]

theorem truncated_of_lengthAt (hread : readField bytes = .error damage)
    (hlength : LengthAt bytes tail) (hshort : tail.length < lengthWidth) :
    damage = .truncated := by
  have htail : readChunk tail = .error .truncated :=
    readChunk_eq_error_iff.2 (.inl ⟨hshort, rfl⟩)
  rw [readField_eq_error_iff.2 ⟨tail, hlength, htail⟩] at hread
  cases hread
  rfl

theorem overrun_of_lengths (hread : readField bytes = .error damage)
    (hlengths : ∀ tail, LengthAt bytes tail → lengthWidth ≤ tail.length) :
    ∃ (shown after : Bytes) (missing : Nat), LengthAt bytes (shown ++ after) ∧
      shown.length = lengthWidth ∧ 0 < missing ∧
      shown.toNatLE = after.length + missing ∧ damage = .overrun missing := by
  obtain ⟨tail, hlength, htail⟩ := readField_eq_error_iff.1 hread
  rcases readChunk_eq_error_iff.1 htail with
    ⟨hshort, -⟩ | ⟨shown, after, rfl, hwidth, hmissing, rfl⟩
  · exact absurd (hlengths tail hlength) (Nat.not_le.2 hshort)
  · exact ⟨shown, after, _, hlength, hwidth, Nat.sub_pos_of_lt hmissing,
      (Nat.add_sub_of_le hmissing.le).symm, rfl⟩

/-! ## Whole rows -/

theorem rowBytes_append (front back : Record) :
    rowBytes (front ++ back) = rowBytes front ++ rowBytes back := by
  simp [rowBytes]

theorem size_append (front back : Record) :
    size (front ++ back) = size front + size back := by
  simp [size_eq_sum]

theorem size_cons (field : Field) (rest : Record) :
    size (field :: rest) = fieldSize field + size rest := by
  simp [size_eq_sum]

theorem Meets.atDamage {cursor : Cursor} (h : Meets cursor fields (some e)) :
    ∃ tail damage, cursor.rest = rowBytes fields ++ tail ∧ tail ≠ [] ∧
      readField tail = .error damage ∧
      e = .malformed (cursor.offset + size fields) damage := by
  generalize hending : some e = ending at h
  induction h with
  | finished offset => cases hending
  | @damaged offset bytes damage hbytes hread =>
      cases hending
      exact ⟨bytes, damage, rfl, hbytes, hread, rfl⟩
  | field offset hread hrest ih =>
      obtain ⟨tail, damage, hbytes, htail, hdamage, rfl⟩ := ih hending
      obtain ⟨rfl, -⟩ := eq_fieldBytes_of_readField hread
      refine ⟨tail, damage, ?_, htail, hdamage, ?_⟩
      · simpa [rowBytes] using hbytes
      · rw [size_cons, Nat.add_assoc]

theorem meets_damaged (hfits : ∀ field ∈ fields, FieldFits field)
    (htail : tail ≠ []) (hread : readField tail = .error damage)
    (offset : Nat) :
    Meets ⟨offset, rowBytes fields ++ tail⟩ fields
      (some (.malformed (offset + size fields) damage)) := by
  induction fields generalizing offset with
  | nil => exact .damaged offset htail hread
  | cons field rest ih =>
      obtain ⟨hfield, hrest⟩ := List.forall_mem_cons.1 hfits
      have hfirst : readField (rowBytes (field :: rest) ++ tail) =
          .ok (field, rowBytes rest ++ tail) := by
        have hread := readField_fieldBytes (rowBytes rest ++ tail) hfield
        rwa [← List.append_assoc] at hread
      have hlater := ih hrest (offset + fieldSize field)
      rw [Nat.add_assoc, ← size_cons] at hlater
      exact .field offset hfirst hlater

theorem decode_eq_error_iff :
    decode bytes = .error e ↔
      ∃ record tail damage, (∀ field ∈ record, FieldFits field) ∧
        bytes = rowBytes record ++ tail ∧ tail ≠ [] ∧
        readField tail = .error damage ∧
        e = .malformed (size record) damage := by
  constructor
  · intro h
    obtain ⟨record, ending, hmeets⟩ := exists_meets 0 bytes
    rw [decode_of_meets hmeets] at h
    cases ending with
    | none => cases h
    | some cause =>
        cases h
        obtain ⟨tail, damage, hbytes, htail, hread, he⟩ := hmeets.atDamage
        rw [Nat.zero_add] at he
        exact ⟨record, tail, damage, hmeets.fits.1, hbytes, htail, hread, he⟩
  · rintro ⟨record, tail, damage, hfits, rfl, htail, hread, rfl⟩
    rw [decode_of_meets (meets_damaged hfits htail hread 0), Nat.zero_add]
    rfl

theorem isLongestRow_of_damage (hfits : ∀ field ∈ record, FieldFits field)
    (htail : tail ≠ []) (hread : readField tail = .error damage) :
    IsLongestRow (rowBytes record ++ tail) record :=
  (meets_damaged hfits htail hread 0).isLongestRow_iff.2 rfl

theorem decode_append_of_error {row : Bytes} {offset : Nat}
    (hrow : encode record = .ok row)
    (h : decode bytes = .error (.malformed offset damage)) :
    decode (row ++ bytes) = .error (.malformed (row.length + offset) damage) := by
  obtain ⟨hrecord, rfl⟩ := encode_eq_ok_iff.1 hrow
  obtain ⟨fields, tail, damage, hfields, rfl, htail, hread, heq⟩ :=
    decode_eq_error_iff.1 h
  cases heq
  refine decode_eq_error_iff.2
    ⟨record ++ fields, tail, _, ?_, ?_, htail, hread, ?_⟩
  · exact List.forall_mem_append.2 ⟨hrecord, hfields⟩
  · rw [rowBytes_append, List.append_assoc]
  · rw [size_append, length_rowBytes_eq_size]

/-! ## Rows cut off -/

theorem rowBytes_take_front (record : Record) (i : Nat) :
    rowBytes (record.take i) <+: rowBytes record := by
  refine ⟨rowBytes (record.drop i), ?_⟩
  rw [← rowBytes_append, List.take_append_drop]

theorem take_of_row_prefix (hrecord : ∀ field ∈ record, FieldFits field)
    (hfields : ∀ field ∈ fields, FieldFits field)
    (hfront : rowBytes fields <+: rowBytes record) :
    ∃ i ≤ record.length, fields = record.take i := by
  have hstart : fields <+: record :=
    (meets_rowBytes 0 hrecord).prefix_of_row hfields hfront
  exact ⟨fields.length, hstart.length_le, List.prefix_iff_eq_take.1 hstart⟩

theorem decode_of_cut {row front : Bytes} (hrow : encode record = .ok row)
    (hfront : front <+: row)
    (hcut : ∀ i ≤ record.length, front.length ≠ size (record.take i)) :
    ∃ i < record.length, size (record.take i) < front.length ∧
      front.length < size (record.take (i + 1)) ∧
      ∃ damage, decode front =
        .error (.malformed (size (record.take i)) damage) := by
  obtain ⟨hrecord, rfl⟩ := encode_eq_ok_iff.1 hrow
  have hfits : ∀ i, ∀ field ∈ record.take i, FieldFits field :=
    fun i field hfield => hrecord field (List.mem_of_mem_take hfield)
  cases hdecode : decode front with
  | ok fields =>
      obtain ⟨hfields, rfl⟩ := encode_eq_ok_iff.1 (decode_eq_ok_iff.1 hdecode)
      obtain ⟨i, hi, rfl⟩ := take_of_row_prefix hrecord hfields hfront
      exact absurd (length_rowBytes_eq_size _) (hcut i hi)
  | error e =>
      obtain ⟨fields, tail, damage, hfields, rfl, htail, hread, rfl⟩ :=
        decode_eq_error_iff.1 hdecode
      obtain ⟨i, hi, rfl⟩ := take_of_row_prefix hrecord hfields
        ((List.prefix_append _ _).trans hfront)
      have hlength : size (record.take i) <
          (rowBytes (record.take i) ++ tail).length := by
        rw [List.length_append, length_rowBytes_eq_size]
        exact Nat.lt_add_of_pos_right (List.length_pos_iff.2 htail)
      have hlt : i < record.length := by
        refine lt_of_le_of_ne hi ?_
        rintro rfl
        have hle := hfront.length_le
        rw [List.take_length] at hlength hle
        rw [length_rowBytes_eq_size record] at hle
        omega
      refine ⟨i, hlt, hlength, ?_, damage, rfl⟩
      -- Otherwise the next field would be whole, and the row longer.
      by_contra hwhole
      obtain ⟨row, hrow, -, hlongest⟩ :=
        isLongestRow_of_damage hfields htail hread
      have hnext : rowBytes (record.take (i + 1)) <+:
          rowBytes (record.take i) ++ tail := by
        refine List.prefix_of_prefix_length_le (rowBytes_take_front record _)
          hfront ?_
        rw [length_rowBytes_eq_size]
        exact Nat.not_lt.1 hwhole
      have hle := hlongest _ _ (encode_eq_ok_iff.2 ⟨hfits (i + 1), rfl⟩) hnext
      rw [(encode_eq_ok_iff.1 hrow).2] at hle
      have hlonger := length_rowBytes_lt (record.take i)
        (List.cons_ne_nil record[i] [])
      rw [List.take_concat_get' record i hlt] at hlonger
      omega

/-! ## Where damage is -/

/-- Bytes that are no row are refused, at the end of the longest row at their
front: as cut short where a length of the next field is not there in full, and
otherwise by how much one of its lengths is too great.  A row that is cut off
within a field is refused where that field starts, and a row before damaged
bytes moves the damage by its length. -/
theorem damage_is_located (bytes : Bytes) :
    ((∃ e, decode bytes = .error e) ↔ ∀ record, encode record ≠ .ok bytes) ∧
    (∀ e, decode bytes = .error e →
      ∃ record row field damage, IsLongestRow bytes record ∧
        encode record = .ok row ∧ bytes = row ++ field ∧
        row.length < bytes.length ∧ e = .malformed row.length damage ∧
        ((∃ tail, LengthAt field tail ∧ tail.length < 4) →
          damage = .truncated ∧ damage.message = "truncated pair (Eof)") ∧
        ((∀ tail, LengthAt field tail → 4 ≤ tail.length) →
          ∃ (shown after : Bytes) (missing : Nat),
            LengthAt field (shown ++ after) ∧ shown.length = 4 ∧
            0 < missing ∧ shown.toNatLE = after.length + missing ∧
            damage = .overrun missing ∧
            damage.message =
              s!"length prefix runs {missing} bytes past the end")) ∧
    ∀ record row, encode record = .ok row →
      (∀ front, front <+: row →
        (∀ i ≤ record.length, front.length ≠ size (record.take i)) →
        ∃ i < record.length, size (record.take i) < front.length ∧
          front.length < size (record.take (i + 1)) ∧
          ∃ damage, decode front =
            .error (.malformed (size (record.take i)) damage)) ∧
      ∀ offset damage, decode bytes = .error (.malformed offset damage) →
        decode (row ++ bytes) =
          .error (.malformed (row.length + offset) damage) := by
  refine ⟨?_, ?_, ?_⟩
  · simp only [ne_eq, ← decode_eq_ok_iff]
    cases decode bytes <;> simp
  · intro e he
    obtain ⟨record, tail, damage, hfits, rfl, htail, hread, rfl⟩ :=
      decode_eq_error_iff.1 he
    refine ⟨record, rowBytes record, tail, damage,
      isLongestRow_of_damage hfits htail hread,
      encode_eq_ok_iff.2 ⟨hfits, rfl⟩, rfl, ?_, ?_, ?_, ?_⟩
    · rw [List.length_append]
      exact Nat.lt_add_of_pos_right (List.length_pos_iff.2 htail)
    · rw [length_rowBytes_eq_size]
    · rintro ⟨cut, hlength, hshort⟩
      obtain rfl := truncated_of_lengthAt hread hlength hshort
      exact ⟨rfl, rfl⟩
    · intro hlengths
      obtain ⟨shown, after, missing, hlength, hwidth, hpos, hmissing, rfl⟩ :=
        overrun_of_lengths hread hlengths
      exact ⟨shown, after, missing, hlength, hwidth, hpos, hmissing, rfl, rfl⟩
  · intro record row hrow
    exact ⟨fun front hfront hcut => decode_of_cut hrow hfront hcut,
      fun offset damage h => decode_append_of_error hrow h⟩

/-- A name of two bytes of which one is there, after a field of nine bytes. -/
theorem damage_is_located_nameCut :
    let row : Bytes := [0, 0, 0, 0, 1, 0, 0, 0, 7]
    let cut : Bytes := [2, 0, 0, 0, 5]
    encode [⟨[], [7]⟩] = .ok row ∧
      decode cut = .error (.malformed 0 (.overrun 1)) ∧
      decode (row ++ cut) = .error (.malformed 9 (.overrun 1)) := by
  intro row cut
  have hcut : decode cut = .error (.malformed 0 (.overrun 1)) :=
    decode_eq_error_iff.2
      ⟨[], cut, .overrun 1, by simp, rfl, by simp [cut], rfl, rfl⟩
  obtain ⟨-, -, hrows⟩ := damage_is_located cut
  exact ⟨rfl, hcut, (hrows [⟨[], [7]⟩] row rfl).2 0 (.overrun 1) hcut⟩

end TieredCache.Row
