import Mathlib
import TieredCache.Proofs.Workload.Records

/-!
# The numbers that inserts claim

Whatever else a workload is asked for, only claims change it, and each takes the
number after the one before.  The numbers follow those of the records that were
loaded until they wrap.  Workloads with keys of fewer than twenty digits are
accepted only if no claim comes that far, those with longer keys in any case.
-/

namespace TieredCache

/-- What a workload is asked for.  Draws bring along what they are made from. -/
inductive WorkloadCall (γ : Type) where
  | claim
  | key (id : Nat)
  | operation (g : γ)
  | record (g : γ)
  | someField (g : γ)
  | existing (g : γ)
  | scanLength (g : γ)
  deriving DecidableEq, Repr

inductive WorkloadAnswer where
  | claimed (id : Nat)
  | key (bytes : Bytes)
  | operation (operation : Operation)
  | record (record : Option Record)
  | someField (name : Bytes)
  | existing (id : Option Nat)
  | scanLength (length : Nat)

def WorkloadAnswer.claimed? : WorkloadAnswer → Option Nat
  | .claimed id => some id
  | _ => none

namespace Workload

section Calls

variable {γ : Type} [Draws γ]

def serve (workload : Workload) : WorkloadCall γ → WorkloadAnswer × Workload
  | .claim =>
      let (id, workload) := workload.claim
      (.claimed id, workload)
  | .key id => (.key (workload.key id), workload)
  | .operation g => (.operation (workload.nextOperation g).1, workload)
  | .record g => (.record ((workload.record? g).map Prod.fst), workload)
  | .someField g => (.someField (workload.someField g).1, workload)
  | .existing g => (.existing (workload.existing? g).1, workload)
  | .scanLength g => (.scanLength (workload.scanLength g).1, workload)

def run (workload : Workload) :
    List (WorkloadCall γ) → List WorkloadAnswer × Workload
  | [] => ([], workload)
  | call :: rest =>
      let (answer, workload) := workload.serve call
      let (answers, workload) := run workload rest
      (answer :: answers, workload)

def claimed (workload : Workload) (calls : List (WorkloadCall γ)) : List Nat :=
  (workload.run calls).1.filterMap WorkloadAnswer.claimed?

def existingBelow (count : Nat) (g : γ) : Option Nat × γ :=
  if count = 0 then (none, g)
  else
    let (id, g) := Draws.below count g
    (some id, g)

theorem existing?_eq (workload : Workload) (g : γ) :
    workload.existing? g = existingBelow workload.nextInsert.toNat g := by
  unfold existing? existingBelow
  by_cases hnone : workload.nextInsert = 0
  · simp [hnone]
  · have hpos := toNat_pos_of_ne_zero hnone
    rw [if_neg hnone, if_neg (by omega)]

theorem serve_of_ne_claim (workload : Workload) {call : WorkloadCall γ}
    (h : call ≠ .claim) :
    (workload.serve call).1.claimed? = none ∧
      (workload.serve call).2 = workload := by
  cases call with
  | claim => exact absurd rfl h
  | key id => exact ⟨rfl, rfl⟩
  | operation g => exact ⟨rfl, rfl⟩
  | record g => exact ⟨rfl, rfl⟩
  | someField g => exact ⟨rfl, rfl⟩
  | existing g => exact ⟨rfl, rfl⟩
  | scanLength g => exact ⟨rfl, rfl⟩

/-! ## Runs -/

variable [DecidableEq γ] {workload : Workload} {calls : List (WorkloadCall γ)}

theorem run_after (workload : Workload) (claims : Nat)
    (calls : List (WorkloadCall γ)) :
    ((workload.after claims).run calls).2 =
        workload.after (claims + calls.count .claim) ∧
      (workload.after claims).claimed calls =
        (List.range' claims (calls.count .claim)).map fun claim =>
          (workload.nextInsert.toNat + claim) % 2 ^ 64 := by
  induction calls generalizing claims with
  | nil => exact ⟨rfl, rfl⟩
  | cons call rest ih =>
      by_cases hclaim : call = .claim
      · subst hclaim
        obtain ⟨hnext, hclaimed⟩ := ih (claims + 1)
        rw [List.count_cons_self, List.range'_succ, List.map_cons, ← hclaimed,
          ← toNat_nextInsert_after]
        constructor
        · simpa only [run, serve, claim_after, Nat.add_assoc, Nat.add_comm 1]
            using hnext
        · simp [claimed, run, serve, WorkloadAnswer.claimed?]
      · obtain ⟨hnext, hclaimed⟩ := ih claims
        obtain ⟨hanswer, hsame⟩ :=
          (workload.after claims).serve_of_ne_claim hclaim
        rw [List.count_cons_of_ne hclaim, ← hclaimed, ← hnext]
        constructor
        · simp only [run, hsame]
        · simp only [claimed, run, hsame, List.filterMap_cons, hanswer]

theorem lt_idLimit_of_fits {width count : Nat} (hfits : fits width count = true)
    (hwidth : width < roomyWidth) : count < idLimit := by
  rw [fits_iff] at hfits
  have hnarrow : Decimal.powerOfTen width ≤ Decimal.powerOfTen 19 :=
    Decimal.powerOfTen_le_powerOfTen (Nat.le_of_lt_succ hwidth)
  have hword : Decimal.powerOfTen 19 < idLimit := by decide
  omega

/-- After calls the numbers claimed follow those of the records without a gap,
and draws of existing records know of all of them. -/
structure ClaimsInOrder (workload : Workload) (calls : List (WorkloadCall γ)) :
    Prop where
  numbers : workload.claimed calls =
    List.range' workload.recordCount.toNat (calls.count .claim)
  fresh : ∀ id ∈ workload.claimed calls, workload.recordCount.toNat ≤ id
  distinct : (workload.claimed calls).Nodup
  fit : ∀ id ∈ workload.claimed calls,
    id < Decimal.powerOfTen workload.keys.width
  drawn : ∀ g : γ, (workload.run calls).2.existing? g =
    existingBelow (workload.recordCount.toNat + calls.count .claim) g

theorem Sound.claimsInOrder (h : workload.Sound)
    (hlimit : workload.recordCount.toNat + workload.operationCount.toNat <
      idLimit)
    (hcalls : calls.count .claim ≤ workload.operationCount.toNat) :
    workload.ClaimsInOrder calls := by
  obtain ⟨hnext, hclaimed⟩ := workload.run_after 0 calls
  rw [after_zero, Nat.zero_add] at hnext
  rw [after_zero, h.fresh] at hclaimed
  have hword : idLimit = 2 ^ 64 := rfl
  have hnumbers : workload.claimed calls =
      List.range' workload.recordCount.toNat (calls.count .claim) := by
    rw [hclaimed, List.range'_eq_map_range, List.range'_eq_map_range,
      List.map_map]
    apply List.map_congr_left
    intro claim hclaim
    rw [List.mem_range] at hclaim
    simp only [Function.comp_apply, Nat.zero_add]
    exact Nat.mod_eq_of_lt (by omega)
  refine ⟨hnumbers, ?_, ?_, ?_, ?_⟩
  · intro id hid
    rw [hnumbers, List.mem_range'_1] at hid
    exact hid.1
  · rw [hnumbers]
    exact List.nodup_range'
  · intro id hid
    rw [hnumbers, List.mem_range'_1] at hid
    rw [← Decimal.length_digits_le_iff h.width]
    exact length_digits_le_of_fits h.roomy h.width (by omega) (by omega)
  · intro g
    rw [hnext, existing?_eq, toNat_nextInsert_after, h.fresh,
      Nat.mod_eq_of_lt (by omega)]

theorem Sound.lt_idLimit_of_claimsInOrder (h : workload.Sound)
    (horder : ∀ calls : List (WorkloadCall γ),
      calls.count .claim ≤ workload.operationCount.toNat →
        workload.ClaimsInOrder calls) :
    workload.recordCount.toNat + workload.operationCount.toNat < idLimit := by
  by_contra hwraps
  have hword : idLimit = 2 ^ 64 := rfl
  have hrecords := workload.recordCount.toNat_lt
  -- So many claims bring the next number back to zero.
  let claims := 2 ^ 64 - workload.recordCount.toNat
  have hcount : (List.replicate claims (.claim : WorkloadCall γ)).count .claim =
      claims := List.count_replicate_self
  have hreach : workload.recordCount.toNat + claims = 2 ^ 64 := by omega
  obtain ⟨hnext, -⟩ :=
    workload.run_after 0 (List.replicate claims (.claim : WorkloadCall γ))
  have hdrawn := (horder (List.replicate claims .claim) (by omega)).drawn
    (Draws.ofSeed 0)
  rw [after_zero, Nat.zero_add] at hnext
  rw [hnext, existing?_eq, toNat_nextInsert_after, h.fresh, hcount, hreach]
    at hdrawn
  have hanswers := congrArg (fun drawn => drawn.1.isSome) hdrawn
  simp [existingBelow] at hanswers

/-- Claims within the operations that a workload was accepted for count on from
its records just when the numbers do not run out before all of them, as with
keys of fewer than twenty digits they never do. -/
theorem claims_extend_records (γ : Type) [Draws γ] [DecidableEq γ]
    {properties : Properties} {keys : KeySpace}
    (haccepted : ofProperties properties keys = .ok workload)
    (hwidth : 1 ≤ keys.width) :
    (keys.width < 20 →
      workload.recordCount.toNat + workload.operationCount.toNat < 2 ^ 64) ∧
    ((∀ calls : List (WorkloadCall γ),
        calls.count .claim ≤ workload.operationCount.toNat →
          workload.ClaimsInOrder calls) ↔
      workload.recordCount.toNat + workload.operationCount.toNat < 2 ^ 64) := by
  obtain ⟨hsound, hkeys, -⟩ := sound_of_ofProperties haccepted hwidth
  constructor
  · intro hnarrow
    apply lt_idLimit_of_fits hsound.roomy
    rw [hkeys]
    exact hnarrow
  · constructor
    · exact hsound.lt_idLimit_of_claimsInOrder
    · intro hlimit calls hcalls
      exact hsound.claimsInOrder hlimit hcalls

end Calls

/-! ### So many records and otherwise defaults -/

def recordsOnly (count : String) : Properties :=
  Properties.empty.set Key.recordCount count

theorem accepted_recordsOnly {count : String} {records : UInt64}
    (keys : KeySpace) (hread : Readable.read count = .ok records)
    (hroomy : fits keys.width (records.toNat + 1000) = true) :
    ∃ workload, ofProperties (recordsOnly count) keys = .ok workload ∧
      workload.recordCount = records ∧ workload.operationCount = 1000 := by
  have hentry : recordsOnly count =
      Properties.empty.setAll [(Key.recordCount, count)] := rfl
  rw [hentry]
  obtain ⟨mix, hmix⟩ : ∃ mix, Mix.ofProperties
      (Properties.empty.setAll [(Key.recordCount, count)]) = .ok mix := by
    simp only [Mix.ofProperties, Mix.sources, Mix.readFrom,
      Properties.readD_setAll]
    exact ⟨_, rfl⟩
  refine ⟨_, ofProperties_of_reads
    (Properties.readD_setAll_of_some rfl hread _)
    (Properties.readD_setAll_of_none rfl _)
    (Properties.readD_setAll_of_none rfl _)
    (Properties.readD_setAll_of_none rfl _) hmix
    (Properties.readD_setAll_of_none rfl _)
    (Properties.readD_setAll_of_none rfl _) (by decide) (by decide) hroomy,
    rfl, rfl⟩

theorem claims_extend_ten_records :
    ∃ workload,
      ofProperties (recordsOnly "10") ⟨Bytes.ofString "user", 12⟩ =
        .ok workload ∧
      workload.recordCount.toNat + workload.operationCount.toNat < 2 ^ 64 ∧
      ∀ calls : List (WorkloadCall Generator),
        calls.count .claim ≤ workload.operationCount.toNat →
          workload.ClaimsInOrder calls := by
  have hread : Readable.read "10" = .ok (10 : UInt64) := rfl
  obtain ⟨workload, haccepted, -⟩ :=
    accepted_recordsOnly ⟨Bytes.ofString "user", 12⟩ hread (by decide)
  obtain ⟨hnarrow, horder⟩ := claims_extend_records Generator haccepted (by decide)
  have hlimit := hnarrow (by decide)
  exact ⟨workload, haccepted, hlimit, horder.2 hlimit⟩

/-- With records up to the last number, the first claim takes that one and the
second the number of the first record. -/
theorem claims_wrap_past_last_record :
    ∃ workload,
      ofProperties (recordsOnly "18446744073709551615")
        ⟨Bytes.ofString "user", 20⟩ = .ok workload ∧
      workload.recordCount.toNat = 2 ^ 64 - 1 ∧
      workload.operationCount.toNat = 1000 ∧
      workload.claimed [.claim, (.claim : WorkloadCall Generator)] =
        [2 ^ 64 - 1, 0] := by
  have hread : Readable.read "18446744073709551615" =
      .ok (18446744073709551615 : UInt64) := rfl
  obtain ⟨workload, haccepted, hrecords, hoperations⟩ :=
    accepted_recordsOnly ⟨Bytes.ofString "user", 20⟩ hread (by decide)
  obtain ⟨hsound, -⟩ := sound_of_ofProperties haccepted (by decide)
  obtain ⟨-, hclaimed⟩ :=
    workload.run_after 0 [.claim, (.claim : WorkloadCall Generator)]
  rw [after_zero, hsound.fresh, hrecords] at hclaimed
  refine ⟨workload, haccepted, ?_, ?_, hclaimed⟩
  · rw [hrecords]
    rfl
  · rw [hoperations]
    rfl

end Workload

end TieredCache
