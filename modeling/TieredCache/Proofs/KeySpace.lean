import Mathlib
import TieredCache.Proofs.Decimal
import TieredCache.Store.Scan
import TieredCache.Workload.Basic

/-!
# Keys of one length

The numbers that there is room for have keys of one length, and are read back
from them.  No other byte strings are keys of numbers, and keys are in the order
of their numbers.
-/

namespace TieredCache

namespace Decimal

theorem idLimit_le_powerOfTen {width : Nat} (h : Workload.roomyWidth ≤ width) :
    idLimit ≤ powerOfTen width :=
  le_trans (by decide) (powerOfTen_le_powerOfTen h)

end Decimal

theorem Workload.fits_iff {width count : Nat} : fits width count = true ↔
    roomyWidth ≤ width ∨ count ≤ Decimal.powerOfTen width := by
  simp [fits]

theorem Workload.length_digits_le_of_fits {width count id : Nat}
    (hfits : fits width count = true) (hwidth : 0 < width) (hid : id < count)
    (hlimit : id < idLimit) : (Decimal.digits id).length ≤ width := by
  rw [Decimal.length_digits_le_iff hwidth]
  rcases fits_iff.1 hfits with hroomy | hcount
  · have := Decimal.idLimit_le_powerOfTen hroomy
    omega
  · omega

namespace KeySpace

variable {space : KeySpace} {id : Nat} {key : Bytes}

theorem length_key_of_le (h : (Decimal.digits id).length ≤ space.width) :
    (space.key id).length = space.stem.length + space.width := by
  rw [length_key, Nat.max_eq_left h]

/-! ## Numbers of keys -/

theorem key?_eq_some_iff (h : 0 < space.width) :
    space.key? id = some key ↔
      id < 10 ^ space.width ∧ space.key id = key := by
  have hdigits : (Decimal.digits id).length ≤ space.width ↔
      id < 10 ^ space.width :=
    Decimal.length_digits_le_iff h id
  unfold key?
  by_cases hfits : id < 10 ^ space.width
  · simp [hfits, hdigits]
  · simp [hfits, hdigits]

/-- The keys that have a number are the stem with so many digits after it. -/
theorem id?_eq_some_iff :
    space.id? key = some id ↔
      ∃ digits, key = space.stem ++ digits ∧ digits.length = space.width ∧
        (∀ byte ∈ digits, Decimal.IsDigitByte byte) ∧
        Decimal.valueOfBytes digits = id ∧ id < idLimit := by
  unfold id?
  cases hcut : key.splitAt? space.stem.length with
  | none =>
      have hshort := Bytes.splitAt?_eq_none_iff.1 hcut
      constructor
      · simp
      · rintro ⟨digits, rfl, -⟩
        rw [List.length_append] at hshort
        omega
  | some parts =>
      obtain ⟨stem, digits⟩ := parts
      obtain ⟨hlength, rfl⟩ := Bytes.splitAt?_eq_some_iff.1 hcut
      simp only [Option.ite_none_right_eq_some, Option.filter_eq_some_iff,
        Decimal.ofDigitBytes?_eq_some_iff, decide_eq_true_eq]
      constructor
      · rintro ⟨⟨rfl, hwidth⟩, ⟨hdigits, hvalue⟩, hlimit⟩
        exact ⟨digits, rfl, hwidth, hdigits, hvalue, hlimit⟩
      · rintro ⟨others, hsame, hwidth, hdigits, hvalue, hlimit⟩
        obtain ⟨rfl, rfl⟩ := List.append_inj hsame hlength
        exact ⟨⟨rfl, hwidth⟩, ⟨hdigits, hvalue⟩, hlimit⟩

theorem key?_of_id? (h : 0 < space.width) (hid : space.id? key = some id) :
    space.key? id = some key := by
  obtain ⟨digits, rfl, hlength, hdigits, rfl, -⟩ := id?_eq_some_iff.1 hid
  let values := digits.map fun byte => byte.toNat - 48
  have hwidth : values.length = space.width := by
    rw [List.length_map, hlength]
  have hvalues : ∀ d ∈ values, d < 10 := by
    intro d hd
    obtain ⟨byte, hbyte, rfl⟩ := List.mem_map.1 hd
    obtain ⟨-, hhigh⟩ := hdigits byte hbyte
    omega
  have hne : values ≠ [] := List.length_pos_iff.1 (hwidth ▸ h)
  rw [key?_eq_some_iff h, ← Decimal.ofDigits_map_toNat]
  constructor
  · rw [← hwidth]
    exact Decimal.ofDigits_lt hvalues
  · rw [key, ← hwidth, Decimal.paddedDigits_ofDigits hne hvalues,
      Decimal.map_digitByte_toNat hdigits]

/-! ## Order -/

theorem key_lt_key {later : Nat} (h : 0 < space.width) (hlt : id < later)
    (hlater : later < 10 ^ space.width) :
    space.key id < space.key later := by
  have hlength : ∀ n < 10 ^ space.width,
      (Decimal.paddedDigits space.width n).length = space.width := by
    intro n hn
    rw [Decimal.length_paddedDigits]
    exact Nat.max_eq_left ((Decimal.length_digits_le_iff h n).2 hn)
  have hsame : (Decimal.paddedDigits space.width id).length =
      (Decimal.paddedDigits space.width later).length := by
    rw [hlength id (hlt.trans hlater), hlength later hlater]
  apply List.append_left_lt
  apply Decimal.map_digitByte_lt hsame
  · exact fun d => Decimal.lt_ten_of_mem_paddedDigits
  · exact fun d => Decimal.lt_ten_of_mem_paddedDigits
  · rwa [Decimal.ofDigits_paddedDigits, Decimal.ofDigits_paddedDigits]

end KeySpace

namespace Scanner

theorem idOf_eq_ok_iff {scanner : Scanner} {key : Bytes} {id : Nat} :
    scanner.idOf key = .ok id ↔ scanner.space.id? key = some id := by
  unfold idOf
  cases scanner.space.id? key <;> simp

theorem eq_of_idOf_eq_error {scanner : Scanner} {key : Bytes} {e : StoreError}
    (h : scanner.idOf key = .error e) :
    e = .invalidScanKey (Text.repair key) := by
  unfold idOf at h
  split at h
  · cases h
  · cases h
    rfl

/-- A number has a key exactly when its digits fit the width; it is the key
that a workload writes, and the number is read back from it.  What reads as a
number is the stem with as many digits as the width after it, and is the key of
that number; all else is refused.  Keys are in the order of their numbers. -/
theorem keys_correspond_to_numbers (scanner : Scanner) :
    let space := scanner.space
    (∀ id : UInt64,
      ((space.key? id.toNat).isSome ↔ id.toNat < 10 ^ space.width) ∧
      ∀ key, space.key? id.toNat = some key →
        scanner.idOf key = .ok id.toNat ∧
        ∀ workload : Workload, workload.keys = space →
          workload.key id.toNat = key) ∧
    (∀ key : Bytes,
      (∀ id, scanner.idOf key = .ok id ↔
        ∃ digits : Bytes, key = space.stem ++ digits ∧
          digits.length = space.width ∧
          (∀ byte ∈ digits, 48 ≤ byte.toNat ∧ byte.toNat ≤ 57) ∧
          digits.foldl (fun value byte => 10 * value + (byte.toNat - 48)) 0 =
            id ∧
          id < 2 ^ 64) ∧
      (∀ id, scanner.idOf key = .ok id → space.key? id = some key) ∧
      ∀ e, scanner.idOf key = .error e →
        e = .invalidScanKey (Text.repair key)) ∧
    ∀ (i j : UInt64) (first second : Bytes), i < j →
      space.key? i.toNat = some first → space.key? j.toNat = some second →
        first < second := by
  intro space
  have hwidth : 0 < space.width := scanner.width_pos
  refine ⟨?_, ?_, ?_⟩
  · intro id
    constructor
    · simp [Option.isSome_iff_exists, KeySpace.key?_eq_some_iff hwidth]
    · intro key hkey
      refine ⟨?_, ?_⟩
      · exact idOf_eq_ok_iff.2 (KeySpace.id?_of_key? id.toNat_lt hkey)
      · intro workload hkeys
        rw [Workload.key, hkeys]
        exact ((KeySpace.key?_eq_some_iff hwidth).1 hkey).2
  · intro key
    refine ⟨?_, ?_, ?_⟩
    · intro id
      rw [idOf_eq_ok_iff]
      exact KeySpace.id?_eq_some_iff
    · intro id hid
      exact KeySpace.key?_of_id? hwidth (idOf_eq_ok_iff.1 hid)
    · intro e he
      exact eq_of_idOf_eq_error he
  · intro i j first second hlt hfirst hsecond
    obtain ⟨-, rfl⟩ := (KeySpace.key?_eq_some_iff hwidth).1 hfirst
    obtain ⟨hfits, rfl⟩ := (KeySpace.key?_eq_some_iff hwidth).1 hsecond
    exact KeySpace.key_lt_key hwidth (UInt64.lt_iff_toNat_lt.1 hlt) hfits

def wideScanner : Scanner where
  space := ⟨Bytes.ofString "user7", 20⟩
  lookupLimit := 1
  width_pos := by decide
  width_le := by decide

/-- Nine comes before ten, and what is no number of 64 bits is no key. -/
theorem keys_correspond_to_numbers_wideScanner :
    ∃ nine ten, wideScanner.space.key? 9 = some nine ∧
      wideScanner.space.key? 10 = some ten ∧ nine < ten ∧
      wideScanner.idOf ten = .ok 10 ∧
      let key := Bytes.ofString "user718446744073709551616"
      wideScanner.idOf key = .error (.invalidScanKey (Text.repair key)) := by
  obtain ⟨hnumbers, hkeys, horder⟩ := keys_correspond_to_numbers wideScanner
  obtain ⟨nine, hnine⟩ :=
    Option.isSome_iff_exists.1 ((hnumbers 9).1.2 (by decide))
  obtain ⟨ten, hten⟩ :=
    Option.isSome_iff_exists.1 ((hnumbers 10).1.2 (by decide))
  refine ⟨nine, ten, hnine, hten, horder 9 10 nine ten (by decide) hnine hten,
    ((hnumbers 10).2 ten hten).1, ?_⟩
  intro key
  cases hread : wideScanner.idOf key with
  | error e => rw [(hkeys key).2.2 e hread]
  | ok id =>
      obtain ⟨digits, hkey, -, -, hvalue, hlimit⟩ := ((hkeys key).1 id).1 hread
      have hcut : key = wideScanner.space.stem ++
          Bytes.ofString "18446744073709551616" := by decide
      have hdigits := List.append_cancel_left (hcut.symm.trans hkey)
      rw [← hvalue, ← hdigits] at hlimit
      exact absurd hlimit (by decide)

end Scanner

end TieredCache
