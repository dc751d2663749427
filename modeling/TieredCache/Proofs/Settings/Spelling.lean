import Mathlib
import TieredCache.Settings.Basic

/-!
# The texts of values

A natural number is written by decimal digits, with at most one plus sign before
them; a kind of settings takes the numbers below its limit.  Names are written
by themselves.  Every value has a text of its own, and what is read of a text is
the one value that the text writes.
-/

namespace TieredCache

/-! ## Numbers -/

namespace Decimal

def unsigned : List Char → List Char
  | '+' :: rest => rest
  | text => text

def WritesNatural (text : String) (n : Nat) : Prop :=
  let digits := unsigned text.toList
  digits ≠ [] ∧ (∀ c ∈ digits, c.isDigit) ∧ Nat.ofDigitChars 10 digits 0 = n

/-- The text writes no number below the limit: it has no digits, or other
characters, or digits of a number that is too large. -/
def WritesNoneBelow (limit : Nat) (text : String) : Prop :=
  let digits := unsigned text.toList
  digits = [] ∨ (∃ c ∈ digits, ¬c.isDigit) ∨
    limit ≤ Nat.ofDigitChars 10 digits 0

variable {limit value n : Nat} {c : Char} {digits : List Char} {text : String}

theorem writesNoneBelow_iff :
    WritesNoneBelow limit text ↔ ∀ n < limit, ¬WritesNatural text n := by
  simp only [WritesNoneBelow, WritesNatural]
  constructor
  · rintro (hempty | ⟨c, hc, hnot⟩ | hlarge) n hn ⟨hne, hdigits, hvalue⟩
    · exact hne hempty
    · exact hnot (hdigits c hc)
    · omega
  · intro hnone
    by_contra hsome
    push Not at hsome
    obtain ⟨hne, hdigits, hsmall⟩ := hsome
    exact hnone _ hsmall ⟨hne, hdigits, rfl⟩

theorem unsigned_of_digits (h : ∀ c ∈ digits, c.isDigit) :
    unsigned digits = digits := by
  unfold unsigned
  split
  · exact absurd (h '+' (by simp)) (by decide)
  · rfl

theorem writesNatural_toString (n : Nat) : WritesNatural (toString n) n := by
  have htext : (toString n).toList = Nat.toDigits 10 n := by
    rw [Nat.toString_eq_repr, Nat.toList_repr]
  have hdigits : ∀ c ∈ (toString n).toList, c.isDigit := by
    intro c hc
    rw [htext] at hc
    exact Nat.isDigit_of_mem_toDigits (by decide) (by decide) hc
  rw [WritesNatural, unsigned_of_digits hdigits]
  refine ⟨?_, hdigits, ?_⟩
  · rw [htext]
    exact Nat.toDigits_ne_nil
  · rw [htext]
    exact Nat.ofDigitChars_ten_toDigits

theorem digitOf?_eq_some (h : c.isDigit) :
    digitOf? c = some (c.toNat - '0'.toNat) :=
  if_pos (Char.isDigit_iff_toNat.1 h)

theorem digitOf?_eq_none (h : ¬c.isDigit) : digitOf? c = none :=
  if_neg (mt Char.isDigit_iff_toNat.2 h)

theorem le_ofDigitChars (digits : List Char) (value : Nat) :
    value ≤ Nat.ofDigitChars 10 digits value := by
  induction digits generalizing value with
  | nil => exact le_rfl
  | cons c rest ih =>
      rw [Nat.ofDigitChars_cons]
      exact le_trans (by omega) (ih _)

theorem readDigits_eq_ok_iff (h : value < limit) :
    readDigits limit value digits = .ok n ↔
      (∀ c ∈ digits, c.isDigit) ∧ Nat.ofDigitChars 10 digits value = n ∧
        n < limit := by
  induction digits generalizing value with
  | nil =>
      simp only [readDigits, Except.ok.injEq, Nat.ofDigitChars_nil,
        List.not_mem_nil, false_imp_iff, implies_true, true_and]
      constructor
      · rintro rfl
        exact ⟨rfl, h⟩
      · exact And.left
  | cons c rest ih =>
      rw [List.forall_mem_cons, Nat.ofDigitChars_cons]
      by_cases hdigit : c.isDigit
      · have hle := le_ofDigitChars rest (10 * value + (c.toNat - '0'.toNat))
        simp only [readDigits, digitOf?_eq_some hdigit, hdigit, true_and]
        split
        · rename_i hnext
          exact ih hnext
        · constructor
          · rintro ⟨⟩
          · rintro ⟨-, rfl, hn⟩
            omega
      · simp [readDigits, digitOf?_eq_none hdigit, hdigit]

theorem readBelow_eq_ok_iff_readDigits {text : List Char} :
    readBelow limit text = .ok n ↔
      unsigned text ≠ [] ∧ readDigits limit 0 (unsigned text) = .ok n := by
  unfold readBelow
  split
  · simp [unsigned]
  · simp [unsigned]
  · rename_i rest hrest
    simpa [unsigned] using fun _ => hrest
  · rename_i hempty _ hsign
    have hsame : unsigned text = text := by
      unfold unsigned
      split
      · exact absurd rfl (hsign _)
      · rfl
    rw [hsame]
    simpa using fun _ => hempty

theorem readBelow_eq_ok_iff (h : 0 < limit) :
    readBelow limit text.toList = .ok n ↔ WritesNatural text n ∧ n < limit := by
  rw [readBelow_eq_ok_iff_readDigits, readDigits_eq_ok_iff h, WritesNatural,
    and_assoc, and_assoc]

end Decimal

/-! ## Kinds of values -/

/-- A kind of values with its texts: those that write a value, those that write
none, and one that is written for each value. -/
class Spelling (α : Type) extends Readable α where
  Writes : String → α → Prop
  WritesNone : String → Prop
  text : α → String
  writesNone_iff {text : String} :
    WritesNone text ↔ ∀ value, ¬Writes text value
  writes_text (value : α) : Writes (text value) value
  read_eq_ok_iff {text : String} {value : α} :
    read text = .ok value ↔ Writes text value

instance : Readable String where
  read := .ok

instance : Spelling String where
  Writes text value := text = value
  WritesNone _ := False
  text value := value
  writesNone_iff := by simp
  writes_text _ := rfl
  read_eq_ok_iff := by simp [Readable.read]

section Words

variable {α : Type} {limit : Nat} {ofNat : Nat → α} {toNat : α → Nat}
  {text : String} {value : α}

theorem writesNoneBelow_iff_forall_word (hlt : ∀ value, toNat value < limit)
    (htoNat : ∀ n < limit, toNat (ofNat n) = n) :
    Decimal.WritesNoneBelow limit text ↔
      ∀ value, ¬Decimal.WritesNatural text (toNat value) := by
  rw [Decimal.writesNoneBelow_iff]
  constructor
  · exact fun h value => h _ (hlt value)
  · intro h n hn
    rw [← htoNat n hn]
    exact h _

theorem read_word_eq_ok_iff (hlt : ∀ value, toNat value < limit)
    (htoNat : ∀ n < limit, toNat (ofNat n) = n)
    (hofNat : ∀ value, ofNat (toNat value) = value) :
    (match Decimal.readBelow limit text.toList with
      | .ok n => Except.ok (ofNat n)
      | .error e => Except.error (ValueError.natural e)) = .ok value ↔
        Decimal.WritesNatural text (toNat value) := by
  have hlimit : 0 < limit := Nat.zero_lt_of_lt (hlt value)
  have hread := @Decimal.readBelow_eq_ok_iff limit (toNat value) text hlimit
  rw [← and_iff_left (a := Decimal.WritesNatural text _) (hlt value), ← hread]
  cases hnumber : Decimal.readBelow limit text.toList with
  | error e => simp
  | ok n =>
      have hn : n < limit := Decimal.readBelow_lt hlimit hnumber
      simp only [Except.ok.injEq]
      constructor
      · rintro rfl
        exact (htoNat n hn).symm
      · rintro rfl
        exact hofNat value

end Words

instance : Spelling UInt64 where
  Writes text value := Decimal.WritesNatural text value.toNat
  WritesNone := Decimal.WritesNoneBelow (2 ^ 64)
  text value := toString value
  writesNone_iff := writesNoneBelow_iff_forall_word UInt64.toNat_lt
    fun _ h => UInt64.toNat_ofNat_of_lt h
  writes_text value := Decimal.writesNatural_toString value.toNat
  read_eq_ok_iff := read_word_eq_ok_iff UInt64.toNat_lt
    (fun _ h => UInt64.toNat_ofNat_of_lt h) fun _ => UInt64.ofNat_toNat

instance : Spelling UInt32 where
  Writes text value := Decimal.WritesNatural text value.toNat
  WritesNone := Decimal.WritesNoneBelow (2 ^ 32)
  text value := toString value
  writesNone_iff := writesNoneBelow_iff_forall_word UInt32.toNat_lt
    fun _ h => UInt32.toNat_ofNat_of_lt h
  writes_text value := Decimal.writesNatural_toString value.toNat
  read_eq_ok_iff := read_word_eq_ok_iff UInt32.toNat_lt
    (fun _ h => UInt32.toNat_ofNat_of_lt h) fun _ => UInt32.ofNat_toNat

instance : Spelling ReadRouting where
  Writes text value := text = value.name
  WritesNone text := text ≠ "affinity" ∧ text ≠ "key"
  text := ReadRouting.name
  writesNone_iff := by
    intro text
    constructor
    · rintro ⟨haffinity, hkey⟩ (_ | _)
      · exact haffinity
      · exact hkey
    · exact fun h => ⟨h .affinity, h .key⟩
  writes_text _ := rfl
  read_eq_ok_iff := by
    intro text value
    constructor
    · intro h
      simp only [Readable.read] at h
      split at h <;> cases h <;> rfl
    · rintro rfl
      cases value <;> rfl

end TieredCache
