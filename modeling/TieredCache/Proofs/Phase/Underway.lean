import Mathlib
import TieredCache.Proofs.Phase.Built
import TieredCache.Proofs.Phase.Operations
import TieredCache.Proofs.Phase.Order

/-!
# Phases under way

Whatever turns the workers take, the store stays one that suits the workload,
and every worker that has a turn is bound.  So what one operation can come to
is what any operation of a phase comes to: only writes fail, for want of room or
because of too large a field.
-/

namespace TieredCache

namespace Execution

variable {γ : Type} {execution : Execution γ} {first : Bench} {room index : Nat}
  {worker : Worker γ} {task : Task}

/-- A phase under way that began on a benchmark. -/
structure Underway (execution : Execution γ) (first : Bench) (room : Nat) :
    Prop where
  orderly : execution.Orderly first.workload
  sound : first.workload.Sound
  store : first.store.Reaches execution.bench.store first.workload room
    fun _ => False
  bound : ∀ (index : Nat) (worker : Worker γ),
    execution.workers[index]? = some worker → worker.failure = none →
      index ∈ execution.bench.store.routing.bindings

theorem Underway.workload_of_load (h : execution.Underway first room)
    (hphase : execution.phase = .load) :
    execution.bench.workload = first.workload := by
  obtain ⟨claims, hclaims, hworkload⟩ := h.orderly.workload
  unfold claimLimit at hclaims
  rw [hphase] at hclaims
  rw [hworkload, Nat.le_zero.1 hclaims, Workload.after_zero]

theorem Underway.claimLimit_le (h : execution.Underway first room) :
    execution.claimLimit ≤ first.workload.operationCount.toNat := by
  have hbegun := h.orderly.begun_le_quota
  unfold claimLimit
  cases hphase : execution.phase with
  | load => exact Nat.zero_le _
  | run =>
      rw [hphase] at hbegun
      exact hbegun

theorem Underway.ready (h : execution.Underway first room) :
    ∃ claims ≤ execution.claimLimit,
      execution.bench.Ready first.workload room claims fun _ => False := by
  obtain ⟨claims, hclaims, hworkload⟩ := h.orderly.workload
  exact ⟨claims, hclaims, h.sound, h.store.holds, hworkload,
    hclaims.trans h.claimLimit_le⟩

/-! ## Steps -/

theorem Underway.load_lt (h : execution.Underway first room)
    (hnext : execution.next? index = some (worker, task))
    (hphase : execution.phase = .load) :
    ∃ id, task = .load id ∧ id = index + worker.begun * execution.threads ∧
      id < first.workload.recordCount.toNat := by
  obtain ⟨hworker, -, hdone, rfl⟩ := h.orderly.next?_eq_some_iff.1 hnext
  have hlt := h.orderly.lt_threads hworker
  rw [hphase, lt_share_iff hlt] at hdone
  have hindex := h.orderly.index index worker hworker
  unfold upcoming
  simp only [hphase, hindex]
  exact ⟨_, rfl, rfl, hdone⟩

/-- Running, a worker that has a turn is bound, and a number is left for it. -/
theorem Underway.run_next (h : execution.Underway first room)
    (hnext : execution.next? index = some (worker, task))
    (hphase : execution.phase = .run) :
    task = .run ∧
      worker.index ∈ execution.bench.store.routing.bindings ∧
      execution.claimLimit < first.workload.operationCount.toNat := by
  have hbegun := h.orderly.begun_lt_quota hnext
  obtain ⟨hworker, hfailure, -, rfl⟩ := h.orderly.next?_eq_some_iff.1 hnext
  have hbound := h.bound index worker hworker hfailure
  rw [← h.orderly.index index worker hworker] at hbound
  unfold claimLimit upcoming
  rw [hphase] at hbegun ⊢
  exact ⟨rfl, hbound, hbegun⟩

theorem Underway.key_of_load (h : execution.Underway first room) {id : Nat}
    (hid : id < first.workload.recordCount.toNat) :
    (first.workload.key id).length = first.workload.keyLength := by
  have hlimit : first.workload.recordCount.toNat < idLimit :=
    UInt64.toNat_lt _
  exact (h.sound.key_spec (by omega) (hid.trans hlimit)).1

variable [Draws γ]

theorem Underway.attempt_load (h : execution.Underway first room)
    (hphase : execution.phase = .load)
    (hnext : execution.next? index = some (worker, task)) :
    ∃ id, task = .load id ∧ id = index + worker.begun * execution.threads ∧
      (execution.attempt worker task).1 = .insert ∧
      (execution.attempt worker task).2.result =
        first.workload.answer room
          (first.store.routing.shardOfKey (first.workload.key id)) := by
  obtain ⟨id, rfl, hid, hlt⟩ := h.load_lt hnext hphase
  obtain ⟨claims, -, hready⟩ := h.ready
  obtain ⟨hresult, -⟩ := hready.write (h.key_of_load hlt) worker.generator
  rw [h.store.routing.shardOfKey] at hresult
  exact ⟨id, rfl, hid, rfl, hresult⟩

theorem Underway.attempt (h : execution.Underway first room)
    (hnext : execution.next? index = some (worker, task)) :
    execution.bench.store.Reaches
        (execution.attempt worker task).2.bench.store first.workload room
        (fun _ => False) ∧
      first.workload.Allows room first.store.scanner.lookupLimit
        (execution.attempt worker task).2.result
        (execution.attempt worker task).1 := by
  obtain ⟨claims, hclaims, hready⟩ := h.ready
  cases hphase : execution.phase with
  | load =>
      obtain ⟨id, rfl, -, hid⟩ := h.load_lt hnext hphase
      exact hready.write_reaches (h.key_of_load hid) worker.generator
  | run =>
      obtain ⟨rfl, hbound, hlimit⟩ := h.run_next hnext hphase
      obtain ⟨hreaches, hallowed⟩ := hready.perform (hclaims.trans_lt hlimit)
        hbound (execution.bench.workload.nextOperation worker.generator).1
        (execution.bench.workload.nextOperation worker.generator).2
      rw [h.store.scanner] at hallowed
      exact ⟨hreaches, hallowed⟩

theorem Underway.perform (h : execution.Underway first room)
    (hnext : execution.next? index = some (worker, task)) :
    (execution.perform worker task).Underway first room := by
  obtain ⟨hworker, hfailure, -⟩ := h.orderly.next?_eq_some_iff.1 hnext
  obtain ⟨hreaches, -⟩ := h.attempt hnext
  refine ⟨h.orderly.perform hnext, h.sound, ?_, ?_⟩
  · rw [bench_perform]
    exact h.store.trans hreaches
  · intro other found hfound hnone
    rw [bench_perform]
    apply hreaches.routing.bound
    rw [h.orderly.workers_perform hworker] at hfound
    split at hfound
    · rename_i heq
      rw [heq]
      exact h.bound index worker hworker hfailure
    · exact h.bound other found hfound hnone

theorem Underway.turns (h : execution.Underway first room) (order : List Nat) :
    (execution.turns order).Underway first room := by
  apply turns_keep (motive := fun reached => reached.Underway first room)
  · intro reached index worker task hreached hnext
    exact hreached.perform hnext
  · exact h

/-! ## Starting -/

theorem reaches_joined (phase : Phase) (threads : Nat) (seed : UInt64)
    {bench : Bench} {listed : Bytes → Prop}
    (h : bench.store.Holds bench.workload room listed) (count : Nat) :
    let joined := joined γ phase bench threads seed count
    bench.store.Reaches joined.bench.store bench.workload room listed ∧
      ∀ (index : Nat) (worker : Worker γ),
        joined.workers[index]? = some worker →
          (worker.failure = none →
            index ∈ joined.bench.store.routing.bindings) ∧
          (index < bench.store.routing.workerLimit →
            worker.failure = none) := by
  induction count with
  | zero => exact ⟨h.reaches, by simp [joined]⟩
  | succ count ih =>
      obtain ⟨-, -, -, -, hsize, -⟩ :=
        joined_spec (γ := γ) phase bench threads seed count
      obtain ⟨hreaches, hworkers⟩ := ih
      rw [joined_succ]
      generalize joined γ phase bench threads seed count = joined at *
      obtain ⟨hnext, hok, hbound⟩ := hreaches.holds.register count
      refine ⟨hreaches.trans hnext, ?_⟩
      intro index worker hworker
      unfold addWorker at hworker
      simp only [Array.getElem?_push, hsize] at hworker
      split at hworker
      · rename_i hlast
        subst hlast
        cases hregister : (joined.bench.store.register index).1 with
        | ok shard =>
            rw [hregister] at hworker
            cases hworker
            exact ⟨fun _ => hbound shard hregister, fun _ => rfl⟩
        | error e =>
            rw [hregister] at hworker
            cases hworker
            constructor
            · intro hnone
              cases hnone
            · intro hlt
              rw [← hreaches.routing.workerLimit] at hlt
              obtain ⟨shard, hshard⟩ := hok hlt
              rw [hregister] at hshard
              contradiction
      · obtain ⟨hold, hnone⟩ := hworkers index worker hworker
        exact ⟨fun hfailure => hnext.routing.bound index (hold hfailure),
          hnone⟩

theorem underway_start (phase : Phase) (threads : Nat) (seed : UInt64)
    {bench : Bench} (hsound : bench.workload.Sound)
    (h : bench.store.Holds bench.workload room fun _ => False) :
    (start γ phase bench threads seed).Underway bench room ∧
      (threads ≤ bench.store.routing.workerLimit →
        ∀ (index : Nat) (worker : Worker γ),
          (start γ phase bench threads seed).workers[index]? = some worker →
            worker.failure = none) := by
  obtain ⟨hreaches, hworkers⟩ := reaches_joined (γ := γ) phase threads seed h threads
  have horderly : (start γ phase bench threads seed).Orderly bench.workload :=
    orderly_start
  refine ⟨⟨horderly, hsound, hreaches, ?_⟩, ?_⟩
  · intro index worker hworker
    exact (hworkers index worker hworker).1
  · intro hthreads index worker hworker
    have hlt := horderly.lt_threads hworker
    rw [threads_start] at hlt
    exact (hworkers index worker hworker).2 (by omega)

theorem Underway.run_start (h : execution.Underway first room)
    (hphase : execution.phase = .load) (threads : Nat) (seed : UInt64) :
    (start γ .run execution.bench threads seed).Underway execution.bench room ∧
      (threads ≤ first.store.routing.workerLimit →
        ∀ (index : Nat) (worker : Worker γ),
          (start γ .run execution.bench threads seed).workers[index]? =
              some worker →
            worker.failure = none) := by
  have hworkload := h.workload_of_load hphase
  rw [← h.store.routing.workerLimit]
  apply underway_start
  · rw [hworkload]
    exact h.sound
  · rw [hworkload]
    exact h.store.holds

end Execution

end TieredCache
