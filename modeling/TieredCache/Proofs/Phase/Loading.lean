import Mathlib
import TieredCache.Proofs.Phase.Results

/-!
# What loading comes to

Whether a record can be stored depends on its sizes, which are the same for all
records, and on the room in a pool, which is the same for all pools.  So all
records are stored or none is, whoever loads them and in whatever order; and
where they are stored, so is everything that a run writes afterwards.
-/

namespace TieredCache

/-! ## Answers to writes -/

namespace Workload

variable {workload : Workload} {room : Nat}

/-- All shards accept writes, or all refuse them for the same cause, or nobody
gets as far as to ask one. -/
theorem answer_cases (workload : Workload) (room : Nat) :
    (¬workload.hasMemory = true ∧
      ∀ shard, workload.answer room shard = .error .cutShort) ∨
    workload.hasMemory = true ∧
      ((∀ shard, workload.answer room shard = .ok true) ∨
      (2 ^ 32 ≤ workload.fieldLength.toNat ∧
        ∃ length, ∀ shard, workload.answer room shard =
          .error (.reported (.row (.fieldTooLarge length)))) ∨
      ∃ size, ∀ shard, workload.answer room shard =
        .error (.reported (.allocationFailed shard size))) := by
  unfold answer refusal?
  by_cases hmemory : workload.hasMemory = true
  · right
    simp only [hmemory, if_true, true_and]
    by_cases hlong : Row.chunkLimit ≤ workload.fieldLength.toNat
    · rw [Row.chunkLimit_eq] at hlong
      refine .inr (.inl ⟨hlong, workload.fieldLength.toNat, fun shard => ?_⟩)
      rw [Row.chunkLimit_eq, if_pos hlong]
    · by_cases henters : workload.Enters room
      · left
        intro shard
        rw [if_neg hlong, if_pos henters]
      · refine .inr (.inr ⟨workload.rowSize, fun shard => ?_⟩)
        rw [if_neg hlong, if_neg henters]
  · left
    refine ⟨hmemory, fun shard => ?_⟩
    rw [if_neg hmemory]

theorem accepted_of_small (hfields : 0 < workload.fieldCount.toNat)
    (hkey : workload.keyLength ≤ Engine.maxKeySize) {size : Nat}
    (hsize : workload.fieldCount.toNat * (33 + workload.fieldLength.toNat) =
      size)
    (hitem : size ≤ Engine.maxItemSize)
    (hroom : workload.keyLength + size ≤ room) (shard : Nat) :
    workload.answer room shard = .ok true := by
  have hrow := workload.rowSize_le
  have hlength := Nat.le_mul_of_pos_left (33 + workload.fieldLength.toNat)
    hfields
  have hcount : workload.fieldCount.toNat * 33 ≤ size := by
    rw [← hsize]
    exact Nat.mul_le_mul_left _ (Nat.le_add_right ..)
  have hchunk : Engine.maxItemSize < Row.chunkLimit := by decide
  have hitems : Engine.maxItemSize < 2 ^ 32 := by decide
  rw [hsize] at hrow hlength
  have henters : workload.Enters room :=
    ⟨hkey, hrow.trans hitem, (Nat.add_le_add_left hrow _).trans hroom⟩
  rw [answer_eq_ok_iff, hasMemory_iff hfields, Oversized,
    refusal?_eq_none_iff]
  exact ⟨by omega, by omega, henters⟩

end Workload

def Outcome.times (count : Nat) : Outcome → OutcomeCounts
  | .ok => { ok := count }
  | .notFound => { notFound := count }
  | .failed => { failed := count }

theorem Outcome.total_times (outcome : Outcome) (count : Nat) :
    (outcome.times count).total = count := by
  cases outcome <;> simp [times, OutcomeCounts.total]

theorem Outcome.count_times (outcome : Outcome) (count : Nat) :
    (outcome.times count).count outcome = outcome.times (count + 1) := by
  cases outcome <;> rfl

namespace Execution

variable {γ : Type} {execution : Execution γ} {first : Bench}
  {room index : Nat} {worker : Worker γ} {task : Task}

/-! ## Loads of one kind -/

/-- A load in which every write settles alike: it stops no worker, and counts
as the same outcome. -/
structure Alike (execution : Execution γ) (first : Bench) (room : Nat)
    (outcome : Outcome) : Prop where
  underway : execution.Underway first room
  phase : execution.phase = .load
  failure : ∀ (index : Nat) (worker : Worker γ),
    execution.workers[index]? = some worker → worker.failure = none
  tally : ∃ count, execution.tally = { inserts := outcome.times count }

theorem Alike.result {outcome : Outcome}
    (h : execution.Alike first room outcome) (hover : execution.Over)
    (hthreads : 0 < execution.threads)
    (hrecords : 0 < first.workload.recordCount.toNat) :
    execution.result = .ok
      ⟨.load, execution.threads,
        [(.insert, outcome.times first.workload.recordCount.toNat)]⟩ := by
  have htotal := h.underway.orderly.total_eq hover hthreads h.failure
  obtain ⟨count, htally⟩ := h.tally
  have hcount : execution.tally.total = count := by
    rw [htally, Tally.total_of_inserts, Outcome.total_times]
  rw [h.phase, hcount] at htotal
  rw [result_eq_ok h.failure, h.phase, htally, Tally.rows_of_inserts, htotal]
  · rfl
  · rw [Outcome.total_times, htotal]
    exact hrecords

/-- A load in which every write stops its worker, at the number that the worker
begins with. -/
structure Stopped (execution : Execution γ) (first : Bench) (room : Nat)
    (stop : Nat → PhaseError) : Prop where
  underway : execution.Underway first room
  phase : execution.phase = .load
  failure : ∀ (index : Nat) (worker : Worker γ),
    execution.workers[index]? = some worker →
      (worker.failure = none ∧ worker.begun = 0) ∨
      worker.failure = some (stop index)

theorem Stopped.result {stop : Nat → PhaseError}
    (h : execution.Stopped first room stop) (hover : execution.Over)
    (hthreads : 0 < execution.threads)
    (hrecords : 0 < first.workload.recordCount.toNat) :
    execution.result = .error (stop 0) := by
  have hzero : 0 < execution.workers.size := by
    rw [h.underway.orderly.size]
    exact hthreads
  have hworker := Array.getElem?_eq_getElem hzero
  rcases h.failure 0 _ hworker with ⟨hnone, hbegun⟩ | hsome
  · -- The first worker has record 0 to load, so it would have had a turn.
    have hshare : execution.workers[0].begun <
        share (first.workload.quota execution.phase) execution.threads 0 := by
      rw [h.phase, lt_share_iff hthreads, hbegun, Nat.zero_mul]
      exact hrecords
    have hnext := h.underway.orderly.next?_eq_some_iff.2
      ⟨hworker, hnone, hshare, rfl⟩
    rw [hover 0] at hnext
    contradiction
  · exact result_eq_error hworker hsome

variable [Draws γ]

theorem Alike.perform {outcome : Outcome}
    (h : execution.Alike first room outcome)
    (hsettle : ∀ shard failure,
      settle (first.workload.answer room shard) failure = (some outcome, none))
    (hnext : execution.next? index = some (worker, task)) :
    (execution.perform worker task).Alike first room outcome := by
  obtain ⟨hworker, -⟩ := Execution.next?_eq_some_iff.1 hnext
  obtain ⟨id, -, -, hinsert, hresult⟩ := h.underway.attempt_load h.phase hnext
  obtain ⟨count, htally⟩ := h.tally
  refine ⟨h.underway.perform hnext, ?_, ?_, count + 1, ?_⟩
  · exact (phase_perform ..).trans h.phase
  · intro other someone hsomeone
    rw [h.underway.orderly.workers_perform hworker, hresult, hsettle]
      at hsomeone
    split at hsomeone
    · cases hsomeone
      rfl
    · exact h.failure other someone hsomeone
  · rw [tally_perform, hresult, hsettle, hinsert, htally]
    simp only [Tally.count?, Tally.count, Outcome.count_times]

theorem Stopped.perform {stop : Nat → PhaseError}
    (h : execution.Stopped first room stop)
    (hstop : ∀ id, (settle (first.workload.answer room
      (first.store.routing.shardOfKey (first.workload.key id)))
        (.loading id)).2 = some (stop id))
    (hnext : execution.next? index = some (worker, task)) :
    (execution.perform worker task).Stopped first room stop := by
  obtain ⟨hworker, hfailure, -⟩ := h.underway.orderly.next?_eq_some_iff.1 hnext
  obtain ⟨id, rfl, hid, -, hresult⟩ := h.underway.attempt_load h.phase hnext
  have hbegun : worker.begun = 0 := by
    rcases h.failure index worker hworker with ⟨-, hbegun⟩ | hsome
    · exact hbegun
    · rw [hfailure] at hsome
      contradiction
  rw [hbegun, Nat.zero_mul, Nat.add_zero] at hid
  refine ⟨h.underway.perform hnext, ?_, ?_⟩
  · exact (phase_perform ..).trans h.phase
  · intro other someone hsomeone
    rw [h.underway.orderly.workers_perform hworker, hresult] at hsomeone
    split at hsomeone
    · rename_i heq
      cases hsomeone
      right
      rw [heq, ← hid]
      exact hstop id
    · exact h.failure other someone hsomeone

/-! ## Whole loads -/

section Whole

variable {properties : Properties} {settings : Settings} {bench : Bench}
  {threads : Nat} {seed : UInt64} {order : List Nat}

theorem load_start (hbuilt : bench.Built properties settings)
    (hthreads : threads ≤ settings.maxWorkers.toNat) (seed : UInt64) :
    (start γ .load bench threads seed).Underway bench
        (Store.poolBytes settings) ∧
      ∀ (index : Nat) (worker : Worker γ),
        (start γ .load bench threads seed).workers[index]? = some worker →
          worker.failure = none := by
  obtain ⟨hfresh, hsound, hholds⟩ := hbuilt.fresh
  obtain ⟨hunderway, hfailure⟩ :=
    underway_start (γ := γ) .load threads seed hsound hholds
  rw [hfresh.workers] at hfailure
  exact ⟨hunderway, hfailure hthreads⟩

theorem threads_loaded :
    ((start γ .load bench threads seed).turns order).threads = threads := by
  rw [threads_turns, threads_start]

theorem phase_loaded :
    ((start γ .load bench threads seed).turns order).phase = .load := by
  rw [phase_turns, phase_start]

section Over

variable (hbuilt : bench.Built properties settings)
  (hrecords : 0 < bench.workload.recordCount.toNat) (hpos : 0 < threads)
  (hthreads : threads ≤ settings.maxWorkers.toNat)
  (hover : ((start γ .load bench threads seed).turns order).Over)

include hbuilt hrecords hpos hthreads hover

theorem load_counts (outcome : Outcome) (hsettle : ∀ shard failure,
      settle (bench.workload.answer (Store.poolBytes settings) shard) failure =
        (some outcome, none)) :
    ((start γ .load bench threads seed).turns order).result = .ok
      ⟨.load, threads,
        [(.insert, outcome.times bench.workload.recordCount.toNat)]⟩ := by
  obtain ⟨hunderway, hfailure⟩ := load_start (γ := γ) hbuilt hthreads seed
  have halike : ((start γ .load bench threads seed).turns order).Alike bench
      (Store.poolBytes settings) outcome := by
    apply turns_keep (motive := fun reached =>
      reached.Alike bench (Store.poolBytes settings) outcome)
    · intro reached index worker task hreached hnext
      exact hreached.perform hsettle hnext
    · refine ⟨hunderway, phase_start, hfailure, 0, ?_⟩
      rw [tally_start]
      cases outcome <;> rfl
  have hresult := halike.result hover (by rwa [threads_loaded]) hrecords
  rw [threads_loaded] at hresult
  exact hresult

theorem load_stops (stop : Nat → PhaseError)
    (hstop : ∀ id, (settle (bench.workload.answer (Store.poolBytes settings)
      (bench.store.routing.shardOfKey (bench.workload.key id)))
        (.loading id)).2 = some (stop id)) :
    ((start γ .load bench threads seed).turns order).result =
      .error (stop 0) := by
  obtain ⟨hunderway, hfailure⟩ := load_start (γ := γ) hbuilt hthreads seed
  have hstopped : ((start γ .load bench threads seed).turns order).Stopped bench
      (Store.poolBytes settings) stop := by
    apply turns_keep (motive := fun reached =>
      reached.Stopped bench (Store.poolBytes settings) stop)
    · intro reached index worker task hreached hnext
      exact hreached.perform hstop hnext
    · refine ⟨hunderway, phase_start, ?_⟩
      intro index worker hworker
      exact .inl ⟨hfailure index worker hworker, begun_start hworker⟩
  exact hstopped.result hover (by rwa [threads_loaded]) hrecords

end Over

/-- What loading can come to: all records are stored, all are refused, it is given
up at once, or it is cut short at once. -/
inductive LoadOutcome where
  | stored
  | refused
  | aborted (shard size : Nat)
  | cutShort

def LoadOutcome.result (records threads : Nat) :
    LoadOutcome → Except PhaseError Report
  | .stored => .ok ⟨.load, threads, [(.insert, { ok := records })]⟩
  | .refused => .ok ⟨.load, threads, [(.insert, { failed := records })]⟩
  | .aborted shard size => .error (.loading 0 (.allocationFailed shard size))
  | .cutShort => .error .cutShort

theorem exists_loadOutcome (hbuilt : bench.Built properties settings)
    (hrecords : 0 < bench.workload.recordCount.toNat) :
    ∃ outcome : LoadOutcome,
      (outcome = .refused → 2 ^ 32 ≤ bench.workload.fieldLength.toNat) ∧
      (outcome = .cutShort ↔ bench.workload.Oversized) ∧
      (outcome = .stored → ∀ shard,
        bench.workload.answer (Store.poolBytes settings) shard = .ok true) ∧
      ∀ {γ : Type} [Draws γ] {threads seed order}, 0 < threads →
        threads ≤ settings.maxWorkers.toNat →
        ((start γ .load bench threads seed).turns order).Over →
          ((start γ .load bench threads seed).turns order).result =
            outcome.result bench.workload.recordCount.toNat threads := by
  obtain ⟨-, hsound, -⟩ := hbuilt.fresh
  have hmemory := Workload.hasMemory_iff hsound.fields
  rcases bench.workload.answer_cases (Store.poolBytes settings) with
    ⟨hnone, hcut⟩ | ⟨hsome, haccepted | ⟨hlong, length, hlarge⟩ | ⟨size, hfull⟩⟩
  · refine ⟨.cutShort, nofun, ?_, nofun, ?_⟩
    · rw [hmemory, not_not] at hnone
      exact ⟨fun _ => hnone, fun _ => rfl⟩
    · intro γ _ threads seed order hpos hthreads hover
      refine load_stops hbuilt hrecords hpos hthreads hover
        (fun _ => .cutShort) fun id => ?_
      rw [hcut]
      rfl
  · refine ⟨.stored, nofun, ?_, fun _ => haccepted, ?_⟩
    · exact ⟨nofun, fun hover => absurd hover (hmemory.1 hsome)⟩
    · intro γ _ threads seed order hpos hthreads hover
      refine load_counts hbuilt hrecords hpos hthreads hover .ok ?_
      intro shard failure
      rw [haccepted]
      rfl
  · refine ⟨.refused, fun _ => hlong, ?_, nofun, ?_⟩
    · exact ⟨nofun, fun hover => absurd hover (hmemory.1 hsome)⟩
    · intro γ _ threads seed order hpos hthreads hover
      refine load_counts hbuilt hrecords hpos hthreads hover .failed ?_
      intro shard failure
      rw [hlarge]
      rfl
  · refine ⟨.aborted (bench.store.routing.shardOfKey (bench.workload.key 0))
      size, nofun, ?_, nofun, ?_⟩
    · exact ⟨nofun, fun hover => absurd hover (hmemory.1 hsome)⟩
    · intro γ _ threads seed order hpos hthreads hover
      refine load_stops hbuilt hrecords hpos hthreads hover
        (fun id => .loading id (.allocationFailed
          (bench.store.routing.shardOfKey (bench.workload.key id)) size))
        fun id => ?_
      rw [hfull]
      rfl

end Whole

variable {properties : Properties} {settings : Settings} {bench : Bench}

theorem accepted_keyedProperties
    (hkeys : bench.workload.keys = ⟨Bytes.ofString "user", 12⟩)
    (hfields : bench.workload.fieldCount = 10)
    (hlength : bench.workload.fieldLength = 100) (shard : Nat) :
    bench.workload.answer (Store.poolBytes Bench.keyedSettings) shard =
      .ok true := by
  have hkey : bench.workload.keyLength = 16 := by
    unfold Workload.keyLength
    rw [hkeys]
    rfl
  exact Workload.accepted_of_small (by rw [hfields]; decide)
    (by rw [hkey]; decide) (by rw [hfields, hlength]) (by decide)
    (by rw [hkey]; decide) shard

theorem load_counts_keyedProperties
    (hbuilt : bench.Built Bench.keyedProperties Bench.keyedSettings)
    (hkeys : bench.workload.keys = ⟨Bytes.ofString "user", 12⟩)
    (hrecords : bench.workload.recordCount = 1000)
    (hfields : bench.workload.fieldCount = 10)
    (hlength : bench.workload.fieldLength = 100) {threads : Nat}
    {seed : UInt64} {order : List Nat} (hpos : 0 < threads)
    (hthreads : threads ≤ Bench.keyedSettings.maxWorkers.toNat)
    (hover : ((start γ .load bench threads seed).turns order).Over) :
    ((start γ .load bench threads seed).turns order).result =
      .ok ⟨.load, threads, [(.insert, { ok := 1000 })]⟩ := by
  have hresult := load_counts hbuilt (by rw [hrecords]; decide) hpos hthreads
    hover .ok fun shard failure => by
      rw [accepted_keyedProperties hkeys hfields hlength]
      rfl
  rw [hrecords] at hresult
  exact hresult

end Execution

end TieredCache
