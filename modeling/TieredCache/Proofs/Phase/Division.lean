import Mathlib
import TieredCache.Proofs.Phase.Loading

/-!
# Every operation once

The record numbers and the operations of a phase are divided among its workers,
with nothing left over and nothing given out twice.  A log of what the workers
do, turn by turn, has all of it when nobody was stopped, and a report counts
what is in the log.
-/

namespace TieredCache

/-! ## Logs -/

/-- An operation that a worker began for a task, and what came of it, unless it was
cut short. -/
structure LogEntry where
  worker : Nat
  task : Task
  operation : Operation
  outcome? : Option Outcome
  deriving DecidableEq, Repr

namespace LogEntry

def counts (log : List LogEntry) (operation : Operation) : OutcomeCounts :=
  let times (outcome : Outcome) : Nat := log.countP fun entry =>
    entry.operation = operation ∧ entry.outcome? = some outcome
  { ok := times .ok, notFound := times .notFound, failed := times .failed }

theorem counts_concat (log : List LogEntry) (entry : LogEntry)
    (operation : Operation) :
    counts (log ++ [entry]) operation =
      match entry.outcome? with
      | some outcome =>
          if operation = entry.operation then
            (counts log operation).count outcome
          else counts log operation
      | none => counts log operation := by
  rcases entry with ⟨worker, task, kind, _ | outcome⟩
  · simp [counts]
  · by_cases hkind : operation = kind
    · cases outcome <;> simp [counts, hkind, OutcomeCounts.count]
    · simp [counts, hkind, Ne.symm hkind]

theorem exists_of_counts_pos {log : List LogEntry} {operation : Operation}
    (h : 0 < (counts log operation).total) :
    ∃ entry ∈ log, entry.operation = operation := by
  simp only [counts, OutcomeCounts.total, Nat.add_pos_iff_pos_or_pos,
    List.countP_pos_iff, decide_eq_true_eq] at h
  rcases h with (⟨entry, hentry, hkind, -⟩ | ⟨entry, hentry, hkind, -⟩) |
    ⟨entry, hentry, hkind, -⟩
  all_goals exact ⟨entry, hentry, hkind⟩

def tasksOf (log : List LogEntry) (worker : Nat) : List Task :=
  (log.filter fun entry => entry.worker = worker).map task

theorem tasksOf_cons (entry : LogEntry) (log : List LogEntry) (worker : Nat) :
    tasksOf (entry :: log) worker =
      if entry.worker = worker then entry.task :: tasksOf log worker
      else tasksOf log worker := by
  by_cases hworker : entry.worker = worker
  · simp [tasksOf, hworker]
  · simp [tasksOf, hworker]

end LogEntry

namespace Tally

def countLog (tally : Tally) (log : List LogEntry) : Tally :=
  log.foldl (fun tally entry => tally.count? entry.operation entry.outcome?)
    tally

theorem of_countLog (log : List LogEntry) (operation : Operation) :
    (({} : Tally).countLog log).of operation =
      LogEntry.counts log operation := by
  induction log using List.reverseRecOn with
  | nil => cases operation <;> rfl
  | append_singleton log entry ih =>
      rw [LogEntry.counts_concat, ← ih]
      unfold countLog
      rw [List.foldl_append]
      exact of_count? _ entry.operation operation entry.outcome?

end Tally

def Phase.task (phase : Phase) (threads worker begun : Nat) : Task :=
  match phase with
  | .load => .load (worker + begun * threads)
  | .run => .run

namespace Execution

variable {γ : Type} {execution : Execution γ} {base : Workload} {index : Nat}
  {worker : Worker γ} {task : Task}

theorem upcoming_eq (execution : Execution γ) (worker : Worker γ) :
    execution.upcoming worker =
      execution.phase.task execution.threads worker.index worker.begun := rfl

variable [Draws γ]

def entry (execution : Execution γ) (worker : Worker γ) (task : Task) :
    LogEntry :=
  let (operation, performed) := execution.attempt worker task
  { worker := worker.index, task, operation
    outcome? := (settle performed.result (blame operation task)).1 }

/-- What the workers do when they take turns in an order. -/
def log (execution : Execution γ) : List Nat → List LogEntry
  | [] => []
  | index :: order =>
      match execution.next? index with
      | none => execution.log order
      | some (worker, task) =>
          execution.entry worker task ::
            (execution.perform worker task).log order

theorem log_cons_of_none (hnext : execution.next? index = none)
    (order : List Nat) :
    execution.log (index :: order) = execution.log order := by
  rw [log, hnext]

theorem log_cons_of_some (hnext : execution.next? index = some (worker, task))
    (order : List Nat) :
    execution.log (index :: order) =
      execution.entry worker task ::
        (execution.perform worker task).log order := by
  rw [log, hnext]

theorem tally_turns (execution : Execution γ) (order : List Nat) :
    (execution.turns order).tally =
      execution.tally.countLog (execution.log order) := by
  induction order generalizing execution with
  | nil => rfl
  | cons index order ih =>
      cases hnext : execution.next? index with
      | none =>
          rw [turns_cons_of_none hnext, log_cons_of_none hnext]
          exact ih execution
      | some next =>
          rw [turns_cons_of_some hnext, log_cons_of_some hnext, ih,
            tally_perform]
          rfl

theorem Orderly.length_log (h : execution.Orderly base) (order : List Nat) :
    (execution.turns order).begun =
      execution.begun + (execution.log order).length := by
  induction order generalizing execution with
  | nil => rfl
  | cons index order ih =>
      cases hnext : execution.next? index with
      | none =>
          rw [turns_cons_of_none hnext, log_cons_of_none hnext]
          exact ih h
      | some next =>
          obtain ⟨worker, task⟩ := next
          obtain ⟨hworker, -⟩ := Execution.next?_eq_some_iff.1 hnext
          rw [turns_cons_of_some hnext, log_cons_of_some hnext,
            ih (h.perform hnext), h.begun_perform hworker, List.length_cons]
          omega

theorem Orderly.worker_entry (h : execution.Orderly base)
    (hworker : execution.workers[index]? = some worker) (task : Task) :
    (execution.entry worker task).worker = index :=
  h.index index worker hworker

theorem Orderly.operation_of_mem_log (h : execution.Orderly base)
    (hphase : execution.phase = .load) {order : List Nat} {entry : LogEntry}
    (hentry : entry ∈ execution.log order) : entry.operation = .insert := by
  induction order generalizing execution with
  | nil => cases hentry
  | cons index order ih =>
      cases hnext : execution.next? index with
      | none =>
          rw [log_cons_of_none hnext] at hentry
          exact ih h hphase hentry
      | some next =>
          obtain ⟨worker, task⟩ := next
          rw [log_cons_of_some hnext] at hentry
          rcases List.mem_cons.1 hentry with rfl | hlater
          · obtain ⟨-, -, -, rfl⟩ := h.next?_eq_some_iff.1 hnext
            rw [upcoming_eq, hphase]
            rfl
          · exact ih (h.perform hnext) ((phase_perform ..).trans hphase) hlater

/-- In every order a worker does its tasks one after the other. -/
theorem Orderly.tasksOf_log (h : execution.Orderly base) (order : List Nat)
    (index : Nat) :
    ∃ count, (execution.turns order).begunBy index =
        execution.begunBy index + count ∧
      LogEntry.tasksOf (execution.log order) index =
        (List.range' (execution.begunBy index) count).map
          (execution.phase.task execution.threads index) := by
  induction order generalizing execution with
  | nil => exact ⟨0, rfl, rfl⟩
  | cons other order ih =>
      cases hnext : execution.next? other with
      | none =>
          rw [turns_cons_of_none hnext, log_cons_of_none hnext]
          exact ih h
      | some next =>
          obtain ⟨worker, task⟩ := next
          obtain ⟨hworker, -, -, rfl⟩ := h.next?_eq_some_iff.1 hnext
          have hentry := h.worker_entry hworker (execution.upcoming worker)
          have hdone := h.begunBy_perform hworker (execution.upcoming worker)
            index
          obtain ⟨count, hcount, htasks⟩ := ih (h.perform hnext)
          rw [phase_perform, threads_perform] at htasks
          rw [turns_cons_of_some hnext, log_cons_of_some hnext,
            LogEntry.tasksOf_cons, hentry]
          -- A turn adds a task to those of its own worker only.
          by_cases heq : other = index
          · subst heq
            rw [if_pos rfl] at hdone
            rw [hdone] at hcount htasks
            refine ⟨count + 1, by omega, ?_⟩
            rw [if_pos rfl, htasks, List.range'_succ, List.map_cons,
              begunBy_eq hworker, ← h.index other worker hworker]
            rfl
          · rw [if_neg (Ne.symm heq), Nat.add_zero] at hdone
            rw [hdone] at hcount htasks
            refine ⟨count, hcount, ?_⟩
            rw [if_neg heq, htasks]

theorem Orderly.tasksOf_log_eq (h : execution.Orderly base) {order : List Nat}
    (hover : (execution.turns order).Over)
    (hfailure : ∀ (index : Nat) (worker : Worker γ),
      (execution.turns order).workers[index]? = some worker →
        worker.failure = none)
    (hindex : index < execution.threads)
    (hdone : execution.begunBy index = 0) :
    LogEntry.tasksOf (execution.log order) index =
      (List.range
        (share (base.quota execution.phase) execution.threads index)).map
        (execution.phase.task execution.threads index) := by
  obtain ⟨count, hcount, htasks⟩ := h.tasksOf_log order index
  have hshare := (h.turns order).begunBy_eq_share hover hfailure
    (by rwa [threads_turns])
  rw [phase_turns, threads_turns, hcount, hdone, Nat.zero_add] at hshare
  rw [htasks, hdone, hshare, List.range_eq_range']

/-! ## Parts -/

/-- The numbers that loading has for a worker, while it does not fail. -/
def assigned (execution : Execution γ) (index : Nat) : Set Nat :=
  {id | ∃ worker : Worker γ, worker.index = index ∧
    execution.task? worker = some (.load id)}

section Load

variable (h : execution.Orderly base) (hphase : execution.phase = .load)
  (hindex : index < execution.threads)

include h hphase hindex

theorem Orderly.assigned_eq :
    execution.assigned index =
      (fun done => index + done * execution.threads) ''
        Finset.range
          (share base.recordCount.toNat execution.threads index) := by
  ext id
  simp only [assigned, Set.mem_ofPred_eq, Set.mem_image, Finset.coe_range,
    Set.mem_Iio]
  constructor
  · rintro ⟨worker, rfl, htask⟩
    obtain ⟨-, hdone, hid⟩ := (h.task?_eq_some_iff hindex).1 htask
    rw [upcoming_eq, hphase] at hid
    rw [hphase] at hdone
    cases hid
    exact ⟨worker.begun, hdone, rfl⟩
  · rintro ⟨done, hdone, rfl⟩
    refine ⟨⟨index, Draws.ofSeed 0, done, none⟩, rfl, ?_⟩
    rw [h.task?_eq_some_iff hindex, upcoming_eq, hphase]
    exact ⟨rfl, hdone, rfl⟩

theorem Orderly.mem_assigned_iff {id : Nat} :
    id ∈ execution.assigned index ↔
      id < base.recordCount.toNat ∧ id % execution.threads = index := by
  rw [h.assigned_eq hphase hindex]
  simp only [Set.mem_image, Finset.coe_range, Set.mem_Iio,
    lt_share_iff hindex]
  constructor
  · rintro ⟨done, hid, rfl⟩
    refine ⟨hid, ?_⟩
    rw [Nat.add_mul_mod_self_right, Nat.mod_eq_of_lt hindex]
  · rintro ⟨hid, rfl⟩
    refine ⟨id / execution.threads, ?_, Nat.mod_add_div' ..⟩
    rwa [Nat.mod_add_div']

theorem Orderly.ncard_assigned :
    (execution.assigned index).ncard =
      share base.recordCount.toNat execution.threads index := by
  have hinjective :
      Function.Injective fun done => index + done * execution.threads := by
    intro done other heq
    exact Nat.eq_of_mul_eq_mul_right (Nat.zero_lt_of_lt hindex)
      (Nat.add_left_cancel heq)
  rw [h.assigned_eq hphase hindex, Set.ncard_image_of_injective _ hinjective,
    Set.ncard_coe_finset, Finset.card_range]

end Load

theorem Orderly.assigned_parts (h : execution.Orderly base)
    (hphase : execution.phase = .load) (hthreads : 0 < execution.threads) :
    (Set.Iio execution.threads).PairwiseDisjoint execution.assigned ∧
      (⋃ worker < execution.threads, execution.assigned worker) =
        Set.Iio base.recordCount.toNat ∧
      ∀ worker < execution.threads, (execution.assigned worker).ncard =
        share base.recordCount.toNat execution.threads worker := by
  refine ⟨?_, ?_, fun worker hworker => h.ncard_assigned hphase hworker⟩
  · intro worker hworker other hother hne
    refine Set.disjoint_left.2 fun id hid hshared => hne ?_
    rw [h.mem_assigned_iff hphase hworker] at hid
    rw [h.mem_assigned_iff hphase hother] at hshared
    exact hid.2.symm.trans hshared.2
  · ext id
    simp only [Set.mem_iUnion, Set.mem_Iio, exists_prop]
    constructor
    · rintro ⟨worker, hworker, hid⟩
      exact ((h.mem_assigned_iff hphase hworker).1 hid).1
    · intro hid
      have hworker := Nat.mod_lt id hthreads
      exact ⟨_, hworker, (h.mem_assigned_iff hphase hworker).2 ⟨hid, rfl⟩⟩

/-- Loading gives every record number to one worker, and both phases share
their operations out evenly.  In every order of turns in which nobody is
stopped, each worker does just its own part, one task after the other, and the
report counts each of these operations once. -/
theorem work_is_done_once (γ : Type) [Draws γ] (bench : Bench) (phase : Phase) {threads : Nat}
    (hthreads : 0 < threads) (seed : UInt64) :
    let loading := start γ .load bench threads seed
    let records := bench.workload.recordCount.toNat
    let started := start γ phase bench threads seed
    let quota := bench.workload.quota phase
    ((Set.Iio threads).PairwiseDisjoint loading.assigned ∧
      (⋃ worker < threads, loading.assigned worker) = Set.Iio records ∧
      ∀ worker < threads,
        (loading.assigned worker).ncard = share records threads worker) ∧
    (∑ worker ∈ Finset.range threads, share quota threads worker = quota ∧
      ∀ worker other,
        share quota threads worker ≤ share quota threads other + 1) ∧
    (∃ order, (started.turns order).Over ∧
      bench.execute γ phase threads seed =
        ((started.turns order).result, (started.turns order).bench)) ∧
    ∀ order report, (started.turns order).Over →
      (started.turns order).result = .ok report →
      let log := started.log order
      log.length = quota ∧
      (∀ worker < threads, LogEntry.tasksOf log worker =
        (List.range (share quota threads worker)).map
          (phase.task threads worker)) ∧
      (∀ operation counts, (operation, counts) ∈ report.rows ↔
        LogEntry.counts log operation = counts ∧ 0 < counts.total) ∧
      (phase = .load →
        ∀ operation counts, (operation, counts) ∈ report.rows →
          operation = .insert) ∧
      report.operations = quota ∧
      (report.rows.map fun (_, counts) =>
        counts.ok + counts.notFound + counts.failed).sum = quota := by
  intro loading records started quota
  have hstarted : started.Orderly bench.workload := orderly_start
  have hphase : started.phase = phase := phase_start
  have hworkers : started.threads = threads := threads_start
  refine ⟨?_, ?_, ?_, ?_⟩
  · have hloading : loading.Orderly bench.workload := orderly_start
    have hparts := hloading.assigned_parts phase_start (by rwa [threads_start])
    rwa [threads_start] at hparts
  · exact ⟨sum_share hthreads quota, share_le_share_add_one quota threads⟩
  · exact execute_eq_turns phase bench threads seed
  · intro order report hover hresult log
    obtain ⟨hfailure, rfl⟩ := of_result_eq_ok hresult
    have htally : (started.turns order).tally = ({} : Tally).countLog log := by
      rw [tally_turns, tally_start]
    have htotal := (hstarted.turns order).total_eq hover
      (by rwa [threads_turns, hworkers]) hfailure
    rw [phase_turns, hphase] at htotal
    have hrows : ∀ operation counts,
        (operation, counts) ∈ (started.turns order).tally.rows ↔
          LogEntry.counts log operation = counts ∧ 0 < counts.total := by
      intro operation counts
      rw [Tally.mem_rows_iff, htally, Tally.of_countLog]
    have hoperations : (Report.mk (started.turns order).phase
        (started.turns order).threads
        (started.turns order).tally.rows).operations = quota := by
      rw [Tally.operations_rows, htotal]
    refine ⟨?_, ?_, hrows, ?_, hoperations, ?_⟩
    · have hbegun := (hstarted.turns order).begun_eq hover
        (by rwa [threads_turns, hworkers]) hfailure
      rw [hstarted.length_log, nothing_begun_start, Nat.zero_add, phase_turns,
        hphase] at hbegun
      exact hbegun
    · intro worker hworker
      have htasks := hstarted.tasksOf_log_eq hover hfailure
        (hworkers.symm ▸ hworker) (begunBy_start _)
      rwa [hphase, hworkers] at htasks
    · rintro rfl operation counts hrow
      obtain ⟨rfl, hcounted⟩ := (hrows operation counts).1 hrow
      obtain ⟨entry, hentry, rfl⟩ := LogEntry.exists_of_counts_pos hcounted
      exact hstarted.operation_of_mem_log hphase hentry
    · rw [← hoperations, Report.operations_eq_sum]

/-- Two workers load a thousand records, half of them each. -/
theorem work_is_done_once_keyedProperties :
    ∃ bench : Bench, bench.Built Bench.keyedProperties Bench.keyedSettings ∧
      0 < 2 ∧ ∃ order,
        let started := start Generator .load bench 2 1
        let log := started.log order
        (started.turns order).Over ∧
          (started.turns order).result =
            .ok ⟨.load, 2, [(.insert, { ok := 1000 })]⟩ ∧
          LogEntry.counts log .insert = { ok := 1000 } ∧
          LogEntry.tasksOf log 1 =
            (List.range 500).map fun done => .load (1 + done * 2) := by
  obtain ⟨bench, hbuilt, hkeys, hrecords, -, hfields, hlength⟩ :=
    Bench.built_keyedProperties
  obtain ⟨-, -, ⟨order, hover, -⟩, hlog⟩ :=
    work_is_done_once Generator bench .load Nat.two_pos 1
  have hresult := load_counts_keyedProperties hbuilt hkeys hrecords hfields
    hlength Nat.two_pos (by decide) hover
  obtain ⟨-, htasks, hrows, -⟩ := hlog order _ hover hresult
  refine ⟨bench, hbuilt, Nat.two_pos, order, hover, hresult, ?_, ?_⟩
  · exact ((hrows .insert { ok := 1000 }).1 List.mem_cons_self).1
  · have hone := htasks 1 Nat.one_lt_two
    rw [Workload.quota, hrecords] at hone
    exact hone

end Execution

end TieredCache
