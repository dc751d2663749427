import Mathlib
import TieredCache.Decimal.Natural

/-!
# Digits of one width

A number has as many digits as a power of ten says.  Padded to a width it is
the only number that its digits write, and every string of digits is some
number padded to its length.  So numbers of one width are in the order of their
digits.
-/

namespace TieredCache.Decimal

/-! ## Lengths -/

theorem length_significantDigits_le_iff (width n : Nat) :
    (significantDigits n).length ≤ width ↔ n < powerOfTen width := by
  induction width generalizing n with
  | zero =>
      rw [significantDigits]
      by_cases hn : n = 0
      · simp [hn, powerOfTen]
      · simp [hn, powerOfTen]
  | succ width ih =>
      have hpower : powerOfTen (width + 1) = powerOfTen width * 10 := rfl
      rw [significantDigits]
      by_cases hn : n = 0
      · simp [hn, powerOfTen]
      · rw [if_neg hn, List.length_append, List.length_singleton,
          Nat.add_le_add_iff_right, ih, hpower]
        omega

theorem length_digits_le_iff {width : Nat} (h : 0 < width) (n : Nat) :
    (digits n).length ≤ width ↔ n < powerOfTen width := by
  rw [← length_significantDigits_le_iff, digits]
  by_cases hn : n = 0
  · subst hn
    simp [significantDigits]
    omega
  · rw [if_neg hn]

theorem powerOfTen_le_powerOfTen {width wider : Nat} (h : width ≤ wider) :
    powerOfTen width ≤ powerOfTen wider :=
  Nat.pow_le_pow_right (by decide) h

/-! ## Values -/

theorem ofDigits_cons (d : Nat) (ds : List Nat) :
    ofDigits (d :: ds) = d * 10 ^ ds.length + ofDigits ds := by
  induction ds using List.reverseRecOn with
  | nil => simp [ofDigits]
  | append_singleton ds e ih =>
      rw [← List.cons_append, ofDigits_append_singleton, ih,
        ofDigits_append_singleton, List.length_append, List.length_singleton,
        pow_succ]
      ring

theorem ofDigits_lt {ds : List Nat} (h : ∀ d ∈ ds, d < 10) :
    ofDigits ds < 10 ^ ds.length := by
  induction ds using List.reverseRecOn with
  | nil => simp [ofDigits]
  | append_singleton ds d ih =>
      have hlast : d < 10 := h d (by simp)
      have hrest := ih fun e he => h e (List.mem_append_left _ he)
      rw [ofDigits_append_singleton, List.length_append, List.length_singleton,
        pow_succ]
      omega

/-! ## Padding -/

theorem paddedDigits_eq {width : Nat} (h : 0 < width) (n : Nat) :
    paddedDigits width n =
      List.replicate (width - (significantDigits n).length) 0 ++
        significantDigits n := by
  obtain ⟨rest, rfl⟩ := Nat.exists_eq_succ_of_ne_zero h.ne'
  by_cases hn : n = 0
  · subst hn
    simp [paddedDigits, digits, significantDigits, List.replicate_succ']
  · simp [paddedDigits, digits, hn]

theorem zeros_append_significantDigits {ds : List Nat}
    (h : ∀ d ∈ ds, d < 10) :
    List.replicate (ds.length - (significantDigits (ofDigits ds)).length) 0 ++
      significantDigits (ofDigits ds) = ds := by
  induction ds using List.reverseRecOn with
  | nil => simp [ofDigits, significantDigits]
  | append_singleton ds d ih =>
      have hlast : d < 10 := h d (by simp)
      have hrest := ih fun e he => h e (List.mem_append_left _ he)
      rw [ofDigits_append_singleton, List.length_append, List.length_singleton,
        significantDigits]
      by_cases hzero : 10 * ofDigits ds + d = 0
      · obtain ⟨hvalue, rfl⟩ : ofDigits ds = 0 ∧ d = 0 := by omega
        rw [hvalue, significantDigits, if_pos rfl] at hrest
        rw [if_pos hzero]
        simpa [List.replicate_succ'] using hrest
      · have hdiv : (10 * ofDigits ds + d) / 10 = ofDigits ds := by omega
        have hmod : (10 * ofDigits ds + d) % 10 = d := by omega
        rw [if_neg hzero, hdiv, hmod, List.length_append,
          List.length_singleton, Nat.add_sub_add_right, ← List.append_assoc,
          hrest]

theorem paddedDigits_ofDigits {ds : List Nat} (hne : ds ≠ [])
    (h : ∀ d ∈ ds, d < 10) : paddedDigits ds.length (ofDigits ds) = ds := by
  rw [paddedDigits_eq (List.length_pos_iff.2 hne)]
  exact zeros_append_significantDigits h

/-! ## Bytes -/

theorem toNat_digitByte {d : Nat} (h : d < 10) :
    (digitByte d).toNat = 48 + d := by
  rw [digitByte, UInt8.toNat_ofNat', Nat.mod_eq_of_lt (by omega)]

theorem digitByte_lt_digitByte {d e : Nat} (h : d < e) (he : e < 10) :
    digitByte d < digitByte e := by
  rw [UInt8.lt_iff_toNat_lt, toNat_digitByte (h.trans he), toNat_digitByte he]
  omega

def IsDigitByte (byte : UInt8) : Prop := 48 ≤ byte.toNat ∧ byte.toNat ≤ 57

def valueOfBytes (bytes : Bytes) : Nat :=
  bytes.foldl (fun value byte => 10 * value + (byte.toNat - 48)) 0

theorem ofDigits_map_toNat (bytes : Bytes) :
    ofDigits (bytes.map fun byte => byte.toNat - 48) = valueOfBytes bytes := by
  rw [ofDigits, List.foldl_map]
  rfl

theorem map_digitByte_toNat {bytes : Bytes}
    (h : ∀ byte ∈ bytes, IsDigitByte byte) :
    (bytes.map fun byte => byte.toNat - 48).map digitByte = bytes := by
  rw [List.map_map]
  refine (List.map_congr_left fun byte hbyte => ?_).trans (List.map_id bytes)
  obtain ⟨hlow, hhigh⟩ := h byte hbyte
  apply UInt8.toNat_inj.1
  simp only [Function.comp_apply, id_eq]
  rw [toNat_digitByte (by omega)]
  omega

theorem mapM_digitOfByte?_eq_some_iff {bytes : Bytes} {ds : List Nat} :
    bytes.mapM digitOfByte? = some ds ↔
      (∀ byte ∈ bytes, IsDigitByte byte) ∧
        ds = bytes.map fun byte => byte.toNat - 48 := by
  induction bytes generalizing ds with
  | nil => simp [eq_comm]
  | cons byte rest ih =>
      rw [List.mapM_cons, List.forall_mem_cons]
      by_cases hbyte : IsDigitByte byte
      · have hread : digitOfByte? byte = some (byte.toNat - 48) := if_pos hbyte
        simp only [hread, Option.bind_eq_bind, Option.bind_some,
          Option.bind_eq_some_iff, ih, hbyte, true_and, List.map_cons]
        constructor
        · rintro ⟨_, ⟨hrest, rfl⟩, ⟨⟩⟩
          exact ⟨hrest, rfl⟩
        · rintro ⟨hrest, rfl⟩
          exact ⟨_, ⟨hrest, rfl⟩, rfl⟩
      · have hread : digitOfByte? byte = none := if_neg hbyte
        simp [hread, hbyte]

theorem ofDigitBytes?_eq_some_iff {bytes : Bytes} {n : Nat} :
    ofDigitBytes? bytes = some n ↔
      (∀ byte ∈ bytes, IsDigitByte byte) ∧ valueOfBytes bytes = n := by
  unfold ofDigitBytes?
  rw [Option.map_eq_some_iff]
  constructor
  · rintro ⟨ds, hds, rfl⟩
    obtain ⟨hdigits, rfl⟩ := mapM_digitOfByte?_eq_some_iff.1 hds
    exact ⟨hdigits, (ofDigits_map_toNat bytes).symm⟩
  · rintro ⟨hdigits, rfl⟩
    exact ⟨_, mapM_digitOfByte?_eq_some_iff.2 ⟨hdigits, rfl⟩,
      ofDigits_map_toNat bytes⟩

/-! ## Order -/

/-- Of two numbers with as many digits, the digits of the lesser come first. -/
theorem map_digitByte_lt {ds es : List Nat} (hlength : ds.length = es.length)
    (hds : ∀ d ∈ ds, d < 10) (hes : ∀ e ∈ es, e < 10)
    (h : ofDigits ds < ofDigits es) :
    ds.map digitByte < es.map digitByte := by
  induction ds generalizing es with
  | nil =>
      cases List.length_eq_zero_iff.1 hlength.symm
      exact absurd h (lt_irrefl _)
  | cons d ds ih =>
      obtain ⟨e, es, rfl⟩ := List.exists_cons_of_length_eq_add_one hlength.symm
      rw [List.length_cons, List.length_cons, Nat.add_right_cancel_iff]
        at hlength
      rw [List.forall_mem_cons] at hds hes
      rw [ofDigits_cons, ofDigits_cons, hlength] at h
      rw [List.map_cons, List.map_cons, List.cons_lt_cons_iff]
      have hle : d ≤ e := by
        have hbound := ofDigits_lt hes.2
        by_contra hless
        have hround := Nat.mul_le_mul_right (10 ^ es.length)
          (Nat.succ_le_of_lt (Nat.not_le.1 hless))
        rw [Nat.succ_mul] at hround
        omega
      rcases hle.lt_or_eq with hless | rfl
      · exact .inl (digitByte_lt_digitByte hless hes.1)
      · exact .inr ⟨rfl, ih hlength hds.2 hes.2 (by omega)⟩

end TieredCache.Decimal
