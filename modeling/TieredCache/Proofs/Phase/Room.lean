import Mathlib
import TieredCache.Proofs.Phase.Underway
import TieredCache.Proofs.Store.Room

/-!
# Phases with room for everything

An operation asks one thing of the store, and writes only under the number of a
record.  A load and a run come to no more numbers than the workload has records
and operations.  So where a pool has room for a record under each of these,
nothing is ever dropped.
-/

namespace TieredCache

namespace Workload

variable {workload : Workload}

def reachable (workload : Workload) : List Bytes :=
  (List.range (workload.recordCount.toNat +
    workload.operationCount.toNat)).map workload.key

def itemSize (workload : Workload) : Nat :=
  workload.keyLength + workload.rowSize

theorem length_reachable : workload.reachable.length =
    workload.recordCount.toNat + workload.operationCount.toNat := by
  simp [reachable]

theorem key_mem_reachable {id : Nat}
    (hid : id < workload.recordCount.toNat + workload.operationCount.toNat) :
    workload.key id ∈ workload.reachable :=
  List.mem_map_of_mem (List.mem_range.2 hid)

end Workload

namespace Bench

variable {γ : Type} [Draws γ] {bench next : Bench} {base : Workload}
  {room claims : Nat} {listed : Bytes → Prop}

/-- The store goes on as it is or as one call leaves it, which writes nothing but a
record of the workload under a number that can be reached. -/
def Calls (bench next : Bench) (base : Workload) : Prop :=
  next.store = bench.store ∨
    ∃ call, next.store = (bench.store.answer call).2 ∧
      ∀ key record, call = .write key record →
        base.Describes record ∧ key.length = base.keyLength ∧
          key ∈ base.reachable

theorem Calls.ample (h : bench.Calls next base)
    (hample : bench.store.Ample base.reachable base.itemSize) :
    next.store.Ample base.reachable base.itemSize ∧
      next.store.nvmEvictions = bench.store.nvmEvictions := by
  rcases h with hsame | ⟨call, hnext, hwrites⟩
  · rw [hsame]
    exact ⟨hample, rfl⟩
  · rw [hnext]
    apply hample.answer
    intro key record hcall
    obtain ⟨hrecord, hlength, hmem⟩ := hwrites key record hcall
    refine ⟨hmem, le_of_eq ?_⟩
    rw [entrySize, hrecord.length_rowBytes, hlength]
    rfl

/-! ## Operations -/

theorem Ready.write_calls (h : bench.Ready base room claims listed) {id : Nat}
    (hid : id < base.recordCount.toNat + base.operationCount.toNat)
    (hlimit : id < idLimit) (g : γ) :
    bench.Calls (bench.write id g).bench base := by
  unfold Bench.write
  rcases bench.workload.record?_cases g with
    ⟨-, record, g', hrecord, hdrawn⟩ | ⟨-, hnone⟩
  · simp only [hrecord, h.key_eq]
    refine .inr ⟨.write (base.key id) record, rfl, ?_⟩
    rintro _ _ ⟨⟩
    rw [h.workload] at hdrawn
    exact ⟨⟨hdrawn.names, hdrawn.values⟩, (h.sound.key_spec hid hlimit).1,
      Workload.key_mem_reachable hid⟩
  · simp only [hnone]
    exact .inl rfl

theorem calls_withExisting {act : Nat → γ → Performed γ} (g : γ)
    (hact : ∀ id g, id < bench.workload.nextInsert.toNat →
      bench.Calls (act id g).bench base) :
    bench.Calls (bench.withExisting g act).bench base := by
  rcases bench.withExisting_cases g act with ⟨-, heq⟩ | ⟨id, g', hid, heq⟩
  · rw [heq]
    exact .inl rfl
  · rw [heq]
    exact hact id g' hid

theorem Ready.perform_calls (h : bench.Ready base room claims listed)
    (hclaims : claims < base.operationCount.toNat) (worker : Nat)
    (operation : Operation) (g : γ) :
    bench.Calls (bench.perform worker operation g).bench base := by
  have hnext := h.nextInsert_le
  have hlimit : bench.workload.nextInsert.toNat < idLimit := UInt64.toNat_lt _
  cases operation with
  | read =>
      apply calls_withExisting
      intro id g hid
      exact .inr ⟨.read worker (bench.workload.key id)
        (bench.workload.projection g).1, rfl, nofun⟩
  | update =>
      apply calls_withExisting
      intro id g hid
      exact h.write_calls (by omega) (by omega) g
  | scan =>
      apply calls_withExisting
      intro id g hid
      exact .inr ⟨.scan worker (bench.workload.key id)
        (bench.workload.scanLength g).1
        (bench.workload.projection (bench.workload.scanLength g).2).1, rfl,
        nofun⟩
  | insert =>
      obtain ⟨hclaimed, -⟩ := h.claim hclaims
      have hreached : bench.workload.nextInsert.toNat <
          base.recordCount.toNat + base.operationCount.toNat := by omega
      exact hclaimed.write_calls hreached hlimit g
  | delete =>
      apply calls_withExisting
      intro id g hid
      exact .inr ⟨.delete (bench.workload.key id), rfl, nofun⟩

end Bench

namespace Execution

variable {γ : Type} [Draws γ] {execution : Execution γ} {first : Bench}
  {room index : Nat} {worker : Worker γ} {task : Task}

theorem Underway.attempt_calls (h : execution.Underway first room)
    (hnext : execution.next? index = some (worker, task)) :
    execution.bench.Calls (execution.attempt worker task).2.bench
      first.workload := by
  obtain ⟨claims, hclaims, hready⟩ := h.ready
  cases hphase : execution.phase with
  | load =>
      obtain ⟨id, rfl, -, hid⟩ := h.load_lt hnext hphase
      have hlimit : first.workload.recordCount.toNat < idLimit :=
        UInt64.toNat_lt _
      exact hready.write_calls (by omega) (by omega) worker.generator
  | run =>
      obtain ⟨rfl, -, hlimit⟩ := h.run_next hnext hphase
      exact hready.perform_calls (hclaims.trans_lt hlimit) _ _ _

theorem Underway.ample_turns (h : execution.Underway first room)
    (hample : execution.bench.store.Ample first.workload.reachable
      first.workload.itemSize) (order : List Nat) :
    (execution.turns order).bench.store.Ample first.workload.reachable
        first.workload.itemSize ∧
      (execution.turns order).bench.store.nvmEvictions =
        execution.bench.store.nvmEvictions := by
  have hkept := turns_keep
    (motive := fun reached => reached.Underway first room ∧
      reached.bench.store.Ample first.workload.reachable
        first.workload.itemSize ∧
      reached.bench.store.nvmEvictions = execution.bench.store.nvmEvictions)
    (fun reached index worker task ⟨hreached, hkept, hcount⟩ hnext => by
      obtain ⟨hafter, hsame⟩ := (hreached.attempt_calls hnext).ample hkept
      rw [bench_perform]
      exact ⟨hreached.perform hnext, hafter, hsame.trans hcount⟩)
    ⟨h, hample, rfl⟩ order
  exact hkept.2

theorem ample_start (phase : Phase) {bench : Bench} (threads : Nat)
    (seed : UInt64) {keys : List Bytes} {size : Nat}
    (h : bench.store.Ample keys size) :
    (start γ phase bench threads seed).bench.store.Ample keys size ∧
      (start γ phase bench threads seed).bench.store.nvmEvictions =
        bench.store.nvmEvictions := by
  have hjoined : ∀ count,
      (joined γ phase bench threads seed count).bench.store.Ample keys size ∧
        (joined γ phase bench threads seed count).bench.store.nvmEvictions =
          bench.store.nvmEvictions := by
    intro count
    induction count with
    | zero => exact ⟨h, rfl⟩
    | succ count ih =>
        obtain ⟨hkept, hcount⟩ := ih
        obtain ⟨hnext, hsame⟩ := hkept.register count
        rw [joined_succ]
        exact ⟨hnext, hsame.trans hcount⟩
  exact hjoined threads

/-- Where a pool has room for a record of every number that a load and a run can
come to, neither of them makes the engine drop anything. -/
theorem nothing_dropped {properties : Properties} {settings : Settings}
    {bench : Bench} (hbuilt : bench.Built properties settings)
    (hroom : (bench.workload.recordCount.toNat +
      bench.workload.operationCount.toNat) * bench.workload.itemSize ≤
        Store.poolBytes settings)
    (loaders runners : Nat) (seed seed' : UInt64) (order order' : List Nat) :
    let loading := (start γ .load bench loaders seed).turns order
    let running := (start γ .run loading.bench runners seed').turns order'
    loading.bench.store.nvmEvictions = 0 ∧
      running.bench.store.nvmEvictions = 0 := by
  intro loading running
  obtain ⟨hfresh, hsound, hholds⟩ := hbuilt.fresh
  rw [← Workload.length_reachable] at hroom
  have hempty : bench.store.nvmEvictions = 0 := by
    unfold Store.nvmEvictions
    rw [hfresh.counters]
  have hunderway : (start γ .load bench loaders seed).Underway bench
      (Store.poolBytes settings) :=
    (underway_start .load loaders seed hsound hholds).1
  have hloading := hunderway.turns order
  have hphase : loading.phase = .load := (phase_turns ..).trans phase_start
  have hworkload := hloading.workload_of_load hphase
  obtain ⟨hstart, hstarted⟩ :=
    ample_start (γ := γ) .load loaders seed (hfresh.ample hroom)
  obtain ⟨hloaded, hkept⟩ := hunderway.ample_turns hstart order
  obtain ⟨hrun, hjoined⟩ := ample_start (γ := γ) .run runners seed' hloaded
  rw [← hworkload] at hrun
  obtain ⟨-, hran⟩ :=
    (hloading.run_start hphase runners seed').1.ample_turns hrun order'
  have hnone : loading.bench.store.nvmEvictions = 0 :=
    hkept.trans (hstarted.trans hempty)
  exact ⟨hnone, hran.trans (hjoined.trans hnone)⟩

end Execution

end TieredCache
