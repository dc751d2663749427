import Mathlib
import TieredCache.Proofs.Row.RoundTrip
import TieredCache.Proofs.Store.Records
import TieredCache.Proofs.Workload.Parameters

/-!
# The records of a workload

All records that a workload draws have the same names, in the same order, and
values of one length.  So all of them have rows of one size, or none of them
has a row; and a reader that asks for fields as a workload does is shown some
of any of them.
-/

namespace TieredCache.Workload

variable {workload : Workload} {record : Record}

def fieldNames (workload : Workload) : List Bytes :=
  (List.range workload.fieldCount.toNat).map fieldName

structure Describes (workload : Workload) (record : Record) : Prop where
  names : record.map Field.name = workload.fieldNames
  values : ∀ field ∈ record, field.value.length = workload.fieldLength.toNat

/-- What a workload asks for of a record: all of it, or one of its fields. -/
def Asks (workload : Workload) (names : Option (List Bytes)) : Prop :=
  ∀ asked, names = some asked → ∃ name ∈ workload.fieldNames, asked = [name]

def rowSize (workload : Workload) : Nat :=
  (workload.fieldNames.map fun name =>
    Row.fieldOverhead + name.length + workload.fieldLength.toNat).sum

def keyLength (workload : Workload) : Nat :=
  workload.keys.stem.length + workload.keys.width

def after (workload : Workload) (claims : Nat) : Workload :=
  { workload with nextInsert := workload.nextInsert + UInt64.ofNat claims }

/-! ## Draws -/

section Draws

variable {γ : Type} [Draws γ]

theorem map_name_fieldsOnto (length : Nat) (drawn : Record)
    (index count : Nat) (g : γ) :
    (fieldsOnto length drawn index count g).1.map Field.name =
      drawn.reverse.map Field.name ++
        (List.range' index count).map fieldName := by
  induction count generalizing drawn index g with
  | zero => simp [fieldsOnto]
  | succ count ih =>
      simp only [fieldsOnto]
      rw [ih, List.range'_succ, List.map_cons, List.reverse_cons,
        List.map_append, List.append_assoc]
      rfl

theorem length_value_fieldsOnto {length : Nat} {drawn : Record}
    (h : ∀ field ∈ drawn, field.value.length = length) (index count : Nat)
    (g : γ) :
    ∀ field ∈ (fieldsOnto length drawn index count g).1,
      field.value.length = length := by
  induction count generalizing drawn index g with
  | zero =>
      intro field hfield
      exact h field (List.mem_reverse.1 hfield)
  | succ count ih =>
      apply ih
      intro field hfield
      rcases List.mem_cons.1 hfield with rfl | hold
      · exact Draws.length_letters length g
      · exact h field hold

theorem describes_of_record? {g g' : γ}
    (h : workload.record? g = some (record, g')) :
    workload.Describes record := by
  unfold record? at h
  split at h
  · rw [Option.some.injEq, Prod.eq_iff_fst_eq_snd_eq] at h
    obtain ⟨rfl, -⟩ := h
    constructor
    · rw [map_name_fieldsOnto, fieldNames, List.range_eq_range']
      rfl
    · exact length_value_fieldsOnto (by simp) 0 _ g
  · cases h

theorem record?_cases (workload : Workload) (g : γ) :
    (workload.hasMemory = true ∧ ∃ record g',
      workload.record? g = some (record, g') ∧ workload.Describes record) ∨
    (¬workload.hasMemory = true ∧ workload.record? g = none) := by
  by_cases hmemory : workload.hasMemory = true
  · have hrecord : workload.record? g = some (fieldsOnto
        workload.fieldLength.toNat [] 0 workload.fieldCount.toNat g) :=
      if_pos hmemory
    exact .inl ⟨hmemory, _, _, hrecord, describes_of_record? hrecord⟩
  · exact .inr ⟨hmemory, if_neg hmemory⟩

/-- Whether there can be no memory for a record: its fields take that many bytes
between them, or the value of each does. -/
def Oversized (workload : Workload) : Prop :=
  2 ^ 63 ≤ 48 * workload.fieldCount.toNat ∨
    2 ^ 63 ≤ workload.fieldLength.toNat

theorem hasMemory_iff (h : 0 < workload.fieldCount.toNat) :
    workload.hasMemory = true ↔ ¬workload.Oversized := by
  have hsome : ¬workload.fieldCount = 0 := by
    intro hnone
    rw [hnone] at h
    contradiction
  have hlimit : Memory.limit = 2 ^ 63 := rfl
  simp only [hasMemory, hsome, decide_false, Bool.false_or, Bool.and_eq_true,
    Memory.holds_iff, hlimit, Memory.fieldSize, Memory.listSize, Oversized]
  omega

theorem asks_projection (h : 0 < workload.fieldCount.toNat) (g : γ) :
    workload.Asks (workload.projection g).1 := by
  unfold projection
  by_cases hall : workload.readAllFields = true
  · rw [if_pos hall]
    intro asked hasked
    cases hasked
  · rw [if_neg hall]
    intro asked hasked
    cases hasked
    refine ⟨_, List.mem_map_of_mem ?_, rfl⟩
    exact List.mem_range.2 (Draws.below_lt h g)

theorem lt_of_existing? {g : γ} {id : Nat}
    (h : (workload.existing? g).1 = some id) :
    id < workload.nextInsert.toNat := by
  unfold existing? at h
  by_cases hnone : workload.nextInsert = 0
  · rw [if_pos hnone] at h
    cases h
  · rw [if_neg hnone] at h
    cases h
    apply Draws.below_lt
    exact toNat_pos_of_ne_zero hnone

theorem scanLength_pos (workload : Workload) (g : γ) :
    0 < (workload.scanLength g).1 :=
  Nat.succ_pos _

theorem scanLength_le (h : 0 < workload.maxScanLength.toNat) (g : γ) :
    (workload.scanLength g).1 ≤ workload.maxScanLength.toNat :=
  Draws.below_lt h g

end Draws

/-! ## Claims -/

@[simp] theorem after_zero (workload : Workload) : workload.after 0 = workload := by
  simp [after]

@[simp] theorem claim_after (workload : Workload) (claims : Nat) :
    (workload.after claims).claim =
      ((workload.after claims).nextInsert.toNat, workload.after (claims + 1)) := by
  simp [after, claim, UInt64.ofNat_add, UInt64.add_assoc]

theorem toNat_nextInsert_after (workload : Workload) (claims : Nat) :
    (workload.after claims).nextInsert.toNat =
      (workload.nextInsert.toNat + claims) % 2 ^ 64 := by
  simp [after]

/-! ## Keys -/

/-- Numbers that a workload comes to have keys of one length, from which they
are read back. -/
theorem Sound.key_spec {id : Nat} (h : workload.Sound)
    (hid : id < workload.recordCount.toNat + workload.operationCount.toNat)
    (hlimit : id < idLimit) :
    (workload.key id).length = workload.keyLength ∧
      workload.keys.key? id = some (workload.key id) ∧
      workload.keys.id? (workload.key id) = some id := by
  have hdigits := length_digits_le_of_fits h.roomy h.width hid hlimit
  refine ⟨KeySpace.length_key_of_le hdigits, ?_, KeySpace.id?_key hlimit hdigits⟩
  rw [KeySpace.key?, if_pos hdigits]
  rfl

/-! ## Rows -/

theorem length_fieldName_le {index : Nat} (h : index < 2 ^ 64) :
    (fieldName index).length ≤ 25 := by
  have hdigits : (Decimal.digits index).length ≤ 20 := by
    rw [Decimal.length_digits_le_iff (by decide)]
    exact h.trans (by decide)
  have hstem : (Bytes.ofString "field").length = 5 := rfl
  rw [fieldName, Decimal.bytes, List.length_append, List.length_map, hstem]
  omega

theorem length_le_of_mem_fieldNames {name : Bytes}
    (h : name ∈ workload.fieldNames) : name.length ≤ 25 := by
  obtain ⟨index, hindex, rfl⟩ := List.mem_map.1 h
  rw [List.mem_range] at hindex
  exact length_fieldName_le (hindex.trans (UInt64.toNat_lt _))

theorem length_lt_of_mem_fieldNames {name : Bytes}
    (h : name ∈ workload.fieldNames) : name.length < Row.chunkLimit :=
  (length_le_of_mem_fieldNames h).trans_lt (by decide)

theorem rowSize_le (workload : Workload) :
    workload.rowSize ≤
      workload.fieldCount.toNat * (33 + workload.fieldLength.toNat) := by
  have hfields : workload.fieldNames.length = workload.fieldCount.toNat := by
    simp [fieldNames]
  unfold rowSize
  rw [← hfields, ← smul_eq_mul, ← List.length_map (f := fun name : Bytes =>
    Row.fieldOverhead + name.length + workload.fieldLength.toNat)]
  apply List.sum_le_card_nsmul
  intro size hsize
  obtain ⟨name, hname, rfl⟩ := List.mem_map.1 hsize
  have hlength := length_le_of_mem_fieldNames hname
  unfold Row.fieldOverhead
  omega

theorem Describes.name_mem (h : workload.Describes record) {field : Field}
    (hfield : field ∈ record) : field.name ∈ workload.fieldNames := by
  rw [← h.names]
  exact List.mem_map_of_mem hfield

theorem Describes.length (h : workload.Describes record) :
    record.length = workload.fieldCount.toNat := by
  have hnames := congrArg List.length h.names
  simpa [fieldNames] using hnames

theorem Describes.length_rowBytes (h : workload.Describes record) :
    (Row.rowBytes record).length = workload.rowSize := by
  rw [Row.length_rowBytes, rowSize, ← h.names, List.map_map]
  congr 1
  apply List.map_congr_left
  intro field hfield
  rw [Row.fieldSize, h.values field hfield]
  rfl

theorem Describes.encode_eq (h : workload.Describes record)
    (hfields : 0 < workload.fieldCount.toNat) :
    Row.encode record =
      if Row.chunkLimit ≤ workload.fieldLength.toNat then
        .error (.fieldTooLarge workload.fieldLength.toNat)
      else .ok (Row.rowBytes record) := by
  rw [Row.encode_eq]
  by_cases hlong : Row.chunkLimit ≤ workload.fieldLength.toNat
  · rw [if_pos hlong]
    cases hchunk : Row.oversized? record with
    | none =>
        have hnonempty : 0 < record.length := h.length ▸ hfields
        have hfits := (Row.oversized?_eq_none_iff.1 hchunk) _
          (List.getElem_mem hnonempty)
        have hvalue := h.values _ (List.getElem_mem hnonempty)
        have := hfits.2
        omega
    | some chunk =>
        have hmem := List.mem_of_find?_eq_some hchunk
        have hlength : Row.chunkLimit ≤ chunk.length := by
          simpa using List.find?_some hchunk
        obtain ⟨field, hfield, hpart⟩ := List.mem_flatMap.1 hmem
        rcases List.mem_pair.1 hpart with rfl | rfl
        · have := length_lt_of_mem_fieldNames (h.name_mem hfield)
          omega
        · simp only [h.values field hfield]
  · rw [if_neg hlong, Row.oversized?_eq_none_iff.2]
    intro field hfield
    constructor
    · exact length_lt_of_mem_fieldNames (h.name_mem hfield)
    · rw [h.values field hfield]
      exact Nat.not_le.1 hlong

/-! ## Readers -/

theorem Describes.enough (h : workload.Describes record) {name : Bytes}
    (hname : name ∈ workload.fieldNames) : Row.Enough record [name] := by
  rw [← h.names] at hname
  obtain ⟨field, hfield, rfl⟩ := List.mem_map.1 hname
  have hnamed : field ∈ Row.named field.name record := by
    simpa [Row.named] using hfield
  intro other
  by_cases heq : other = field.name
  · subst heq
    have hpos := List.length_pos_of_mem hnamed
    rwa [List.count_singleton_self]
  · simp [Ne.symm heq]

theorem Describes.present_isOk (h : workload.Describes record)
    (hfit : ∀ field ∈ record, Row.FieldFits field)
    {names : Option (List Bytes)} (hasks : workload.Asks names) :
    ∃ fields,
      Store.present workload.fieldCount.toNat (Row.rowBytes record) names =
        .ok fields := by
  have hmeets := Store.meets_row hfit
  cases names with
  | none =>
      refine ⟨record, ?_⟩
      simp only [Store.present, Row.decode_of_meets hmeets, Row.outcome,
        if_pos h.length]
  | some asked =>
      obtain ⟨name, hname, rfl⟩ := hasks asked rfl
      exact ⟨_, Row.decodeSelected_of_enough hmeets (h.enough hname)⟩

end TieredCache.Workload
