/-!
# Byte strings

Keys, stored values and encoded rows are lists of bytes.  Numbers enter them
least significant byte first, and a reader cuts a byte string at a length that
it has just read.
-/

namespace TieredCache

abbrev Bytes := List UInt8

namespace Bytes

def ofString (text : String) : Bytes := text.toUTF8.data.toList

/-! ## Little-endian words -/

def ofNatLE : Nat → Nat → Bytes
  | 0, _ => []
  | width + 1, value => UInt8.ofNat value :: ofNatLE width (value / 256)

def toNatLE : Bytes → Nat
  | [] => 0
  | byte :: rest => byte.toNat + 256 * toNatLE rest

/-- How many numbers a word of a width can hold. -/
def wordLimit : Nat → Nat
  | 0 => 1
  | width + 1 => 256 * wordLimit width

@[simp] theorem length_ofNatLE (width value : Nat) :
    (ofNatLE width value).length = width := by
  induction width generalizing value with
  | zero => rfl
  | succ width ih => simp [ofNatLE, ih]

theorem toNatLE_ofNatLE (width value : Nat) (h : value < wordLimit width) :
    toNatLE (ofNatLE width value) = value := by
  induction width generalizing value with
  | zero =>
      simp only [wordLimit, Nat.lt_one_iff] at h
      simp [ofNatLE, toNatLE, h]
  | succ width ih =>
      have hrest : value / 256 < wordLimit width := by
        rw [Nat.div_lt_iff_lt_mul (by decide), Nat.mul_comm]
        exact h
      simp only [ofNatLE, toNatLE, ih _ hrest, UInt8.toNat_ofNat']
      omega

theorem ofNatLE_toNatLE (bytes : Bytes) :
    ofNatLE bytes.length (toNatLE bytes) = bytes := by
  induction bytes with
  | nil => rfl
  | cons byte rest ih =>
      have hbyte := byte.toNat_lt
      have hdiv : (byte.toNat + 256 * toNatLE rest) / 256 = toNatLE rest := by
        omega
      simp only [toNatLE, List.length_cons, ofNatLE, hdiv, ih]
      congr 1
      apply UInt8.toNat_inj.mp
      simp only [UInt8.toNat_ofNat']
      omega

theorem toNatLE_lt (bytes : Bytes) :
    toNatLE bytes < wordLimit bytes.length := by
  induction bytes with
  | nil => simp [toNatLE, wordLimit]
  | cons byte rest ih =>
      have hbyte := byte.toNat_lt
      simp only [toNatLE, List.length_cons, wordLimit]
      omega

/-! ## Cutting -/

def splitAt? (count : Nat) (bytes : Bytes) : Option (Bytes × Bytes) :=
  let front := bytes.take count
  if front.length = count then some (front, bytes.drop count) else none

@[simp] theorem splitAt?_append (front rest : Bytes) :
    splitAt? front.length (front ++ rest) = some (front, rest) := by
  simp [splitAt?]

theorem splitAt?_eq_some_iff {count : Nat} {bytes front rest : Bytes} :
    splitAt? count bytes = some (front, rest) ↔
      front.length = count ∧ bytes = front ++ rest := by
  constructor
  · intro h
    simp only [splitAt?] at h
    split at h
    · rename_i hlength
      simp only [Option.some.injEq, Prod.mk.injEq] at h
      obtain ⟨rfl, rfl⟩ := h
      exact ⟨hlength, (List.take_append_drop count bytes).symm⟩
    · cases h
  · rintro ⟨rfl, rfl⟩
    exact splitAt?_append front rest

theorem splitAt?_eq_none_iff {count : Nat} {bytes : Bytes} :
    splitAt? count bytes = none ↔ bytes.length < count := by
  simp only [splitAt?, List.length_take]
  split <;> simp <;> omega

end Bytes

end TieredCache
