import Mathlib
import TieredCache.Proofs.KeySpace
import TieredCache.Proofs.Settings.Keys

/-!
# What properties make of a workload

Settings and workloads read the number of fields from one property.  A workload
that was accepted has fields to fill, and its keys have room for all the numbers
that it may come to.
-/

namespace TieredCache

theorem Settings.fieldCount_of_ofProperties {properties : Properties}
    {settings : Settings} (h : ofProperties properties = .ok settings) :
    properties.readD Key.fieldCount (10 : UInt64) = .ok settings.fieldCount :=
  read_of_ofProperties h ⟨Key.fieldCount, fieldCount⟩ (by simp [all])

/-! ## The mix -/

namespace Mix

variable {properties : Properties} {entries mix : Mix}

theorem readFrom_cons {total weight default : Float} {operation : Operation}
    {key : String} (hread : properties.readD key default = .ok weight)
    {rest : List (Operation × String × Float)} :
    readFrom properties entries total ((operation, key, default) :: rest) =
      if 0.0 ≤ weight && weight.isFinite then
        if 0.0 < weight then
          readFrom properties (⟨operation, total + weight⟩ :: entries)
            (total + weight) rest
        else readFrom properties entries total rest
      else .error (.badProportion key weight) := by
  rw [readFrom, hread]

theorem source_of_readFrom {total : Float}
    {sources : List (Operation × String × Float)}
    (h : readFrom properties entries total sources = .ok mix) :
    ∀ entry ∈ mix, entry ∈ entries ∨
      ∃ source ∈ sources, source.1 = entry.operation ∧
        ∃ weight, properties.readD source.2.1 source.2.2 = .ok weight ∧
          0.0 < weight := by
  induction sources generalizing entries total with
  | nil =>
      cases h
      simp
  | cons source rest ih =>
      obtain ⟨operation, key, default⟩ := source
      cases hread : properties.readD key default with
      | error e => simp [readFrom, hread] at h
      | ok weight =>
          rw [readFrom_cons hread] at h
          split at h
          · split at h
            · rename_i hpositive
              intro entry hentry
              rcases ih h entry hentry with hold | ⟨other, hother, hrest⟩
              · rcases List.mem_cons.1 hold with rfl | hold
                · right
                  exact ⟨_, List.mem_cons_self, rfl, weight, hread, hpositive⟩
                · exact .inl hold
              · exact .inr ⟨other, List.mem_cons_of_mem _ hother, hrest⟩
            · intro entry hentry
              rcases ih h entry hentry with hold | ⟨other, hother, hrest⟩
              · exact .inl hold
              · exact .inr ⟨other, List.mem_cons_of_mem _ hother, hrest⟩
          · cases h

theorem readFrom_of_ofProperties (h : ofProperties properties = .ok mix) :
    readFrom properties [] 0.0 sources = .ok mix := by
  unfold ofProperties at h
  cases hread : readFrom properties [] 0.0 sources with
  | error e => simp [hread] at h
  | ok entries =>
      cases entries with
      | nil => simp [hread] at h
      | cons entry rest => simpa [hread] using h

theorem ne_delete_of_ofProperties (h : ofProperties properties = .ok mix)
    (hdelete : ∀ weight : Float,
      properties.readD Key.deleteProportion (0.0 : Float) = .ok weight →
        ¬0.0 < weight) :
    ∀ entry ∈ mix, entry.operation ≠ .delete := by
  intro entry hentry heq
  rcases source_of_readFrom (readFrom_of_ofProperties h) entry hentry with
    hold | ⟨source, hsource, hoperation, weight, hread, hpositive⟩
  · cases hold
  · rw [heq] at hoperation
    simp only [sources, List.mem_cons, List.not_mem_nil, or_false] at hsource
    rcases hsource with rfl | rfl | rfl | rfl | rfl
    · cases hoperation
    · cases hoperation
    · cases hoperation
    · cases hoperation
    · exact hdelete weight hread hpositive

theorem pick_ne {operation : Operation}
    (h : ∀ entry ∈ mix, entry.operation ≠ operation)
    (hread : operation ≠ .read) (place : Float) :
    mix.pick place ≠ operation := by
  unfold pick
  cases hentry : (mix.find? fun entry => place < entry.upTo).or mix.getLast? with
  | none => exact hread.symm
  | some entry =>
      rcases Option.or_eq_some_iff.1 hentry with hfind | ⟨-, hlast⟩
      · exact h entry (List.mem_of_find?_eq_some hfind)
      · exact h entry (List.mem_of_getLast? hlast)

end Mix

/-! ## Accepted workloads -/

namespace Workload

/-- What the checks leave of the parameters of a workload. -/
structure Sound (workload : Workload) : Prop where
  fields : 0 < workload.fieldCount.toNat
  scans : 0 < workload.maxScanLength.toNat
  width : 0 < workload.keys.width
  roomy : fits workload.keys.width
    (workload.recordCount.toNat + workload.operationCount.toNat) = true
  fresh : workload.nextInsert = workload.recordCount

variable {properties : Properties} {keys : KeySpace} {workload : Workload}

theorem toNat_pos_of_ne_zero {word : UInt64} (h : ¬word = 0) :
    0 < word.toNat := by
  rw [← UInt64.toNat_inj, UInt64.toNat_zero] at h
  omega

theorem sound_of_ofProperties (h : ofProperties properties keys = .ok workload)
    (hwidth : 0 < keys.width) :
    workload.Sound ∧ workload.keys = keys ∧
      properties.readD Key.fieldCount (10 : UInt64) =
        .ok workload.fieldCount ∧
      Mix.ofProperties properties = .ok workload.mix := by
  unfold ofProperties at h
  obtain ⟨recordCount, -, h⟩ := exists_of_bind h
  obtain ⟨operationCount, -, h⟩ := exists_of_bind h
  obtain ⟨fieldCount, hfields, h⟩ := exists_of_bind h
  obtain ⟨maxScanLength, -, h⟩ := exists_of_bind h
  dsimp only at h
  by_cases hfield : fieldCount = 0
  · rw [if_pos hfield] at h
    cases h
  rw [if_neg hfield] at h
  by_cases hscan : maxScanLength = 0
  · rw [if_pos hscan] at h
    cases h
  rw [if_neg hscan] at h
  by_cases hroomy :
      fits keys.width (recordCount.toNat + operationCount.toNat) = true
  · rw [if_pos hroomy] at h
    obtain ⟨mix, hmix, h⟩ := exists_of_bind h
    obtain ⟨fieldLength, -, h⟩ := exists_of_bind h
    obtain ⟨readAllFields, -, h⟩ := exists_of_bind h
    cases h
    refine ⟨⟨toNat_pos_of_ne_zero hfield, toNat_pos_of_ne_zero hscan, hwidth,
      hroomy, rfl⟩, rfl, ?_, hmix⟩
    change (properties.readD Key.fieldCount (10 : UInt64)).mapError
      WorkloadError.settings = .ok fieldCount at hfields
    cases hread : properties.readD Key.fieldCount (10 : UInt64) with
    | error e =>
        rw [hread] at hfields
        cases hfields
    | ok count =>
        rw [hread] at hfields
        cases hfields
        rfl
  · rw [if_neg hroomy] at h
    cases h

theorem ofProperties_of_reads
    {recordCount operationCount fieldCount maxScanLength fieldLength : UInt64}
    {readAllFields : Bool} {mix : Mix}
    (hrecords : properties.readD Key.recordCount (1000 : UInt64) =
      .ok recordCount)
    (hoperations : properties.readD Key.operationCount (1000 : UInt64) =
      .ok operationCount)
    (hfields : properties.readD Key.fieldCount (10 : UInt64) = .ok fieldCount)
    (hscans : properties.readD Key.maxScanLength (100 : UInt64) =
      .ok maxScanLength)
    (hmix : Mix.ofProperties properties = .ok mix)
    (hlength : properties.readD Key.fieldLength (100 : UInt64) =
      .ok fieldLength)
    (hall : properties.readD Key.readAllFields true = .ok readAllFields)
    (hfield : fieldCount ≠ 0) (hscan : maxScanLength ≠ 0)
    (hroomy : fits keys.width (recordCount.toNat + operationCount.toNat) =
      true) :
    ofProperties properties keys = .ok
      { table := properties.getD Key.table "usertable"
        recordCount, operationCount, fieldCount, fieldLength, maxScanLength
        readAllFields, keys, mix, nextInsert := recordCount } := by
  unfold ofProperties
  refine bind_of_ok (congrArg (Except.mapError _) hrecords) ?_
  refine bind_of_ok (congrArg (Except.mapError _) hoperations) ?_
  refine bind_of_ok (congrArg (Except.mapError _) hfields) ?_
  refine bind_of_ok (congrArg (Except.mapError _) hscans) ?_
  dsimp only
  rw [if_neg hfield, if_neg hscan, if_pos hroomy]
  refine bind_of_ok hmix ?_
  refine bind_of_ok (congrArg (Except.mapError _) hlength) ?_
  refine bind_of_ok (congrArg (Except.mapError _) hall) ?_
  rfl

end Workload

end TieredCache
