import TieredCache.Bytes

/-!
# Natural numbers in decimal

Writing gives the digits without leading zeros, padded to a width where one is
asked for.  Reading accepts one plus sign before the digits and refuses what is
not a digit, in the order in which the digits stand: a text that is too large
before its first bad character is too large, any other is badly written.
-/

namespace TieredCache.Decimal

/-! ## Digits -/

/-- The decimal digits of a number, most significant first, none for zero. -/
def significantDigits (n : Nat) : List Nat :=
  if n = 0 then [] else significantDigits (n / 10) ++ [n % 10]

def digits (n : Nat) : List Nat :=
  if n = 0 then [0] else significantDigits n

def paddedDigits (width n : Nat) : List Nat :=
  let shown := digits n
  List.replicate (width - shown.length) 0 ++ shown

def powerOfTen (count : Nat) : Nat := Nat.pow 10 count

def ofDigits (ds : List Nat) : Nat :=
  ds.foldl (fun value d => 10 * value + d) 0

@[simp] theorem ofDigits_zeros_append (count : Nat) (ds : List Nat) :
    ofDigits (List.replicate count 0 ++ ds) = ofDigits ds := by
  induction count with
  | zero => rfl
  | succ count ih => simpa [ofDigits, List.replicate_succ] using ih

theorem ofDigits_append_singleton (ds : List Nat) (d : Nat) :
    ofDigits (ds ++ [d]) = 10 * ofDigits ds + d := by
  simp [ofDigits]

theorem ofDigits_significantDigits (n : Nat) :
    ofDigits (significantDigits n) = n := by
  induction n using Nat.strongRecOn with
  | _ n ih =>
      rw [significantDigits]
      split
      · simp [ofDigits, *]
      · rw [ofDigits_append_singleton, ih (n / 10) (by omega)]
        omega

@[simp] theorem ofDigits_digits (n : Nat) : ofDigits (digits n) = n := by
  rw [digits]
  split
  · simp [ofDigits, *]
  · exact ofDigits_significantDigits n

@[simp] theorem ofDigits_paddedDigits (width n : Nat) :
    ofDigits (paddedDigits width n) = n := by
  simp [paddedDigits]

theorem length_paddedDigits (width n : Nat) :
    (paddedDigits width n).length = max width (digits n).length := by
  simp only [paddedDigits, List.length_append, List.length_replicate]
  omega

theorem lt_ten_of_mem_significantDigits {n d : Nat}
    (h : d ∈ significantDigits n) : d < 10 := by
  induction n using Nat.strongRecOn with
  | _ n ih =>
      rw [significantDigits] at h
      split at h
      · cases h
      · rcases List.mem_append.1 h with h | h
        · exact ih (n / 10) (by omega) h
        · simp only [List.mem_singleton] at h
          omega

theorem lt_ten_of_mem_digits {n d : Nat} (h : d ∈ digits n) : d < 10 := by
  rw [digits] at h
  split at h
  · simp only [List.mem_singleton] at h
    omega
  · exact lt_ten_of_mem_significantDigits h

theorem lt_ten_of_mem_paddedDigits {width n d : Nat}
    (h : d ∈ paddedDigits width n) : d < 10 := by
  rcases List.mem_append.1 h with h | h
  · have := List.eq_of_mem_replicate h
    omega
  · exact lt_ten_of_mem_digits h

/-! ## Writing -/

def digitChar (d : Nat) : Char := Char.ofNat (48 + d)

def digitByte (d : Nat) : UInt8 := UInt8.ofNat (48 + d)

def text (n : Nat) : List Char := (digits n).map digitChar

def bytes (n : Nat) : Bytes := (digits n).map digitByte

/-! ## Reading -/

inductive NaturalError where
  | empty
  | badDigit
  | tooLarge
  deriving DecidableEq, Repr

def NaturalError.message : NaturalError → String
  | .empty => "cannot parse integer from empty string"
  | .badDigit => "invalid digit found in string"
  | .tooLarge => "number too large to fit in target type"

def digitOf? (c : Char) : Option Nat :=
  if 48 ≤ c.toNat ∧ c.toNat ≤ 57 then some (c.toNat - 48) else none

def digitOfByte? (byte : UInt8) : Option Nat :=
  if 48 ≤ byte.toNat ∧ byte.toNat ≤ 57 then some (byte.toNat - 48) else none

@[simp] theorem digitOfByte?_digitByte {d : Nat} (h : d < 10) :
    digitOfByte? (digitByte d) = some d := by
  have hnat : (digitByte d).toNat = 48 + d := by
    simp only [digitByte, UInt8.toNat_ofNat']
    omega
  simp [digitOfByte?, hnat]
  omega

def ofDigitBytes? (bytes : Bytes) : Option Nat :=
  (bytes.mapM digitOfByte?).map ofDigits

theorem mapM_digitOfByte?_map {ds : List Nat} (h : ∀ d ∈ ds, d < 10) :
    (ds.map digitByte).mapM digitOfByte? = some ds := by
  induction ds with
  | nil => rfl
  | cons d ds ih =>
      have hd := h d (by simp)
      have hrest := ih fun e he => h e (by simp [he])
      simp [List.mapM_cons, hd, hrest]

theorem ofDigitBytes?_map {ds : List Nat} (h : ∀ d ∈ ds, d < 10) :
    ofDigitBytes? (ds.map digitByte) = some (ofDigits ds) := by
  simp [ofDigitBytes?, mapM_digitOfByte?_map h]

/-- Digits after a number that has already been read, all of it below `limit`. -/
def readDigits (limit : Nat) : Nat → List Char → Except NaturalError Nat
  | value, [] => .ok value
  | value, c :: rest =>
      match digitOf? c with
      | none => .error .badDigit
      | some d =>
          let next := 10 * value + d
          if next < limit then readDigits limit next rest
          else .error .tooLarge

def readBelow (limit : Nat) : List Char → Except NaturalError Nat
  | [] => .error .empty
  | ['+'] => .error .badDigit
  | '+' :: rest => readDigits limit 0 rest
  | text => readDigits limit 0 text

theorem readDigits_lt {limit value n : Nat} {text : List Char}
    (hvalue : value < limit) (h : readDigits limit value text = .ok n) :
    n < limit := by
  induction text generalizing value with
  | nil =>
      simp only [readDigits, Except.ok.injEq] at h
      exact h ▸ hvalue
  | cons c rest ih =>
      simp only [readDigits] at h
      split at h
      · cases h
      · split at h
        · exact ih ‹_› h
        · cases h

theorem readBelow_lt {limit n : Nat} {text : List Char} (hlimit : 0 < limit)
    (h : readBelow limit text = .ok n) : n < limit := by
  unfold readBelow at h
  split at h
  · cases h
  · cases h
  · exact readDigits_lt hlimit h
  · exact readDigits_lt hlimit h

end TieredCache.Decimal
