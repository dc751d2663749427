import TieredCache.Bytes

/-!
# Rows

A record is an ordered list of named fields.  Its row is the concatenation of
its fields with no header and no terminator; a field is its name and then its
value, each behind its length in four little-endian bytes.  The row ends where
its bytes end.
-/

namespace TieredCache

structure Field where
  name : Bytes
  value : Bytes
  deriving DecidableEq, Repr

abbrev Record := List Field

/-- Why a row stops being one: a length that is not there in full, or a length
greater than what follows it. -/
inductive Damage where
  | truncated
  | overrun (missing : Nat)
  | other (reason : String)
  deriving DecidableEq, Repr

def Damage.message : Damage → String
  | .truncated => "truncated pair (Eof)"
  | .overrun missing =>
      s!"length prefix runs {missing} bytes past the end"
  | .other reason => reason

inductive RowError where
  | malformed (offset : Nat) (damage : Damage)
  | incomplete (expected found : Nat)
  | fieldTooLarge (length : Nat)
  deriving DecidableEq, Repr

def RowError.message : RowError → String
  | .malformed offset damage =>
      s!"malformed row encoding at byte {offset}: {damage.message}"
  | .incomplete expected found =>
      s!"incomplete record: expected {expected} fields, found {found}"
  | .fieldTooLarge length =>
      s!"field of {length} bytes is too large to encode"

namespace Row

def fieldOverhead : Nat := 8

def lengthWidth : Nat := 4

/-- A chunk shorter than this has its length in four bytes. -/
def chunkLimit : Nat := Bytes.wordLimit lengthWidth

def fieldSize (field : Field) : Nat :=
  fieldOverhead + field.name.length + field.value.length

def size (record : Record) : Nat :=
  record.foldl (fun bytes field => bytes + fieldSize field) 0

/-! ## Chunks -/

def frame (chunk : Bytes) : Bytes :=
  Bytes.ofNatLE lengthWidth chunk.length ++ chunk

def encodeChunk (chunk : Bytes) : Except RowError Bytes :=
  if chunk.length < chunkLimit then .ok (frame chunk)
  else .error (.fieldTooLarge chunk.length)

def readChunk (bytes : Bytes) : Except Damage (Bytes × Bytes) :=
  match bytes.splitAt? lengthWidth with
  | none => .error .truncated
  | some (shownLength, rest) =>
      let length := shownLength.toNatLE
      match rest.splitAt? length with
      | none => .error (.overrun (length - rest.length))
      | some parts => .ok parts

@[simp] theorem length_frame (chunk : Bytes) :
    (frame chunk).length = lengthWidth + chunk.length := by
  simp [frame]

@[simp] theorem readChunk_frame {chunk : Bytes} (rest : Bytes)
    (h : chunk.length < chunkLimit) :
    readChunk (frame chunk ++ rest) = .ok (chunk, rest) := by
  have hlength := Bytes.toNatLE_ofNatLE lengthWidth chunk.length h
  have hsplit := Bytes.splitAt?_append
    (Bytes.ofNatLE lengthWidth chunk.length) (chunk ++ rest)
  rw [Bytes.length_ofNatLE] at hsplit
  simp [readChunk, frame, List.append_assoc, hsplit, hlength]

theorem eq_frame_of_readChunk {bytes chunk rest : Bytes}
    (h : readChunk bytes = .ok (chunk, rest)) :
    bytes = frame chunk ++ rest ∧ chunk.length < chunkLimit := by
  simp only [readChunk] at h
  split at h
  · cases h
  · rename_i shownLength after hshown
    obtain ⟨hwidth, rfl⟩ := Bytes.splitAt?_eq_some_iff.1 hshown
    split at h
    · cases h
    · rename_i parts hparts
      cases h
      obtain ⟨hlength, rfl⟩ := Bytes.splitAt?_eq_some_iff.1 hparts
      have hround := Bytes.ofNatLE_toNatLE shownLength
      have hlt := Bytes.toNatLE_lt shownLength
      rw [hwidth] at hround hlt
      refine ⟨?_, hlength ▸ hlt⟩
      rw [frame, hlength, hround, List.append_assoc]

/-! ## Fields -/

def fieldBytes (field : Field) : Bytes := frame field.name ++ frame field.value

def encodeField (field : Field) : Except RowError Bytes :=
  match encodeChunk field.name with
  | .error e => .error e
  | .ok name =>
      match encodeChunk field.value with
      | .error e => .error e
      | .ok value => .ok (name ++ value)

def readField (bytes : Bytes) : Except Damage (Field × Bytes) :=
  match readChunk bytes with
  | .error damage => .error damage
  | .ok (name, rest) =>
      match readChunk rest with
      | .error damage => .error damage
      | .ok (value, rest) => .ok (⟨name, value⟩, rest)

def FieldFits (field : Field) : Prop :=
  field.name.length < chunkLimit ∧ field.value.length < chunkLimit

@[simp] theorem length_fieldBytes (field : Field) :
    (fieldBytes field).length = fieldSize field := by
  simp [fieldBytes, fieldSize, fieldOverhead, lengthWidth]
  omega

@[simp] theorem readField_fieldBytes {field : Field} (rest : Bytes)
    (h : FieldFits field) :
    readField (fieldBytes field ++ rest) = .ok (field, rest) := by
  simp [readField, fieldBytes, List.append_assoc, readChunk_frame _ h.1,
    readChunk_frame _ h.2]

theorem eq_fieldBytes_of_readField {bytes rest : Bytes} {field : Field}
    (h : readField bytes = .ok (field, rest)) :
    bytes = fieldBytes field ++ rest ∧ FieldFits field := by
  simp only [readField] at h
  split at h
  · cases h
  · rename_i name after hname
    split at h
    · cases h
    · rename_i value rest' hvalue
      cases h
      obtain ⟨rfl, hn⟩ := eq_frame_of_readChunk hname
      obtain ⟨rfl, hv⟩ := eq_frame_of_readChunk hvalue
      exact ⟨by simp [fieldBytes], hn, hv⟩

theorem length_of_readField {bytes rest : Bytes} {field : Field}
    (h : readField bytes = .ok (field, rest)) :
    bytes.length = fieldSize field + rest.length := by
  obtain ⟨rfl, -⟩ := eq_fieldBytes_of_readField h
  simp

theorem length_lt_of_readField {bytes rest : Bytes} {field : Field}
    (h : readField bytes = .ok (field, rest)) :
    rest.length < bytes.length := by
  rw [length_of_readField h, fieldSize, fieldOverhead]
  omega

/-! ## Whole rows -/

def encodeOnto (written : List Bytes) : Record → Except RowError Bytes
  | [] => .ok written.reverse.flatten
  | field :: rest =>
      match encodeField field with
      | .error e => .error e
      | .ok bytes => encodeOnto (bytes :: written) rest

/-- The row of a record, unless a name or a value is too long for its length;
the first such chunk in row order is reported. -/
def encode (record : Record) : Except RowError Bytes := encodeOnto [] record

/-- Reads fields from `offset` on, after those read so far in reverse. -/
def decodeFrom (offset : Nat) (fields : Record) (bytes : Bytes) :
    Except RowError Record :=
  if bytes.isEmpty then .ok fields.reverse
  else
    match _ : readField bytes with
    | .error damage => .error (.malformed offset damage)
    | .ok (field, rest) =>
        decodeFrom (offset + fieldSize field) (field :: fields) rest
termination_by bytes.length
decreasing_by exact length_lt_of_readField ‹_›

def decode (bytes : Bytes) : Except RowError Record := decodeFrom 0 [] bytes

end Row

end TieredCache
