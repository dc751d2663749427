import TieredCache.Decimal.Natural

/-!
# Numbered keys

Records are numbered, and the key of a record is a stem followed by its number
in decimal, padded with zeros to a fixed width.  A number that fits the width
can be read back from its key; keys of one length sort as their numbers do.
-/

namespace TieredCache

def idLimit : Nat := UInt64.size

structure KeySpace where
  stem : Bytes
  width : Nat
  deriving DecidableEq, Repr

namespace KeySpace

/-- The key of a record number.  One too large for the width is written in full
all the same. -/
def key (space : KeySpace) (id : Nat) : Bytes :=
  space.stem ++ (Decimal.paddedDigits space.width id).map Decimal.digitByte

def key? (space : KeySpace) (id : Nat) : Option Bytes :=
  if (Decimal.digits id).length ≤ space.width then some (space.key id) else none

/-- The record number of a key: what the digits after the stem write. -/
def id? (space : KeySpace) (key : Bytes) : Option Nat :=
  match key.splitAt? space.stem.length with
  | none => none
  | some (stem, digits) =>
      if stem = space.stem ∧ digits.length = space.width then
        (Decimal.ofDigitBytes? digits).filter (· < idLimit)
      else none

theorem length_key (space : KeySpace) (id : Nat) :
    (space.key id).length =
      space.stem.length + max space.width (Decimal.digits id).length := by
  simp [key, Decimal.length_paddedDigits]

theorem id?_key {space : KeySpace} {id : Nat} (hid : id < idLimit)
    (hwidth : (Decimal.digits id).length ≤ space.width) :
    space.id? (space.key id) = some id := by
  have hdigits := Decimal.ofDigitBytes?_map
    (fun d (hd : d ∈ Decimal.paddedDigits space.width id) =>
      Decimal.lt_ten_of_mem_paddedDigits hd)
  simp [id?, key, Decimal.length_paddedDigits, Nat.max_eq_left hwidth, hdigits,
    hid]

theorem id?_of_key? {space : KeySpace} {id : Nat} {key : Bytes}
    (hid : id < idLimit) (h : space.key? id = some key) :
    space.id? key = some id := by
  simp only [key?] at h
  split at h
  · cases h
    exact id?_key hid ‹_›
  · cases h

end KeySpace

end TieredCache
