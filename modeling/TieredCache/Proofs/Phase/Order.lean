import Mathlib
import TieredCache.Proofs.Phase.Turns

/-!
# Workers in any order

In every order of turns each worker does at most its share, so the operations of
a phase are at most as many as it is to have, and exactly as many once no worker
has anything left to do and none has failed.  One such order is that in which
each follows the other to its end.
-/

namespace TieredCache.Execution

variable {γ : Type} {execution : Execution γ} {base : Workload} {index : Nat}
  {worker : Worker γ} {task : Task}

/-! ## Order -/

def begunBy (execution : Execution γ) (index : Nat) : Nat :=
  match execution.workers[index]? with
  | some worker => worker.begun
  | none => 0

theorem begunBy_eq (hworker : execution.workers[index]? = some worker) :
    execution.begunBy index = worker.begun := by
  unfold begunBy
  rw [hworker]

def begun (execution : Execution γ) : Nat :=
  ∑ index ∈ Finset.range execution.threads, execution.begunBy index

def Unbroken (execution : Execution γ) : Prop :=
  ∀ (index : Nat) (worker : Worker γ),
    execution.workers[index]? = some worker → worker.failure ≠ some .cutShort

/-- There cannot be more claims of record numbers than operations begun, and there
are none while loading. -/
def claimLimit (execution : Execution γ) : Nat :=
  match execution.phase with
  | .load => 0
  | .run => execution.begun

/-- Workers stand at their own places and keep to their shares, and what they
have begun has been counted unless it was cut short. -/
structure Orderly (execution : Execution γ) (base : Workload) : Prop where
  size : execution.workers.size = execution.threads
  index : ∀ (index : Nat) (worker : Worker γ),
    execution.workers[index]? = some worker → worker.index = index
  begun_le : ∀ index, index < execution.threads →
    execution.begunBy index ≤
      share (base.quota execution.phase) execution.threads index
  total_le : execution.tally.total ≤ execution.begun
  begun_le_total : execution.Unbroken →
    execution.begun ≤ execution.tally.total
  workload : ∃ claims ≤ execution.claimLimit,
    execution.bench.workload = base.after claims

theorem Orderly.limit_eq (h : execution.Orderly base) :
    execution.limit = base.quota execution.phase := by
  obtain ⟨claims, -, hworkload⟩ := h.workload
  unfold limit
  rw [hworkload]
  rfl

def upcoming (execution : Execution γ) (worker : Worker γ) : Task :=
  match execution.phase with
  | .load => .load (worker.index + worker.begun * execution.threads)
  | .run => .run

theorem Orderly.task?_eq_some_iff (h : execution.Orderly base)
    (hindex : worker.index < execution.threads) :
    execution.task? worker = some task ↔
      worker.failure = none ∧
        worker.begun <
          share (base.quota execution.phase) execution.threads worker.index ∧
        task = execution.upcoming worker := by
  have hlimit := h.limit_eq
  unfold limit at hlimit
  unfold task? upcoming
  cases hfailure : worker.failure with
  | some e => simp
  | none =>
      cases hphase : execution.phase with
      | load =>
          simp only [hphase] at hlimit
          rw [lt_share_iff hindex, ← hlimit]
          by_cases hid : worker.index + worker.begun * execution.threads <
              execution.bench.workload.recordCount.toNat
          · simp [hid, eq_comm]
          · simp [hid]
      | run =>
          simp only [hphase] at hlimit
          rw [← hlimit]
          by_cases hdone : worker.begun <
              share execution.bench.workload.operationCount.toNat
                execution.threads worker.index
          · simp [hdone, eq_comm]
          · simp [hdone]

theorem Orderly.lt_threads (h : execution.Orderly base)
    (hworker : execution.workers[index]? = some worker) :
    index < execution.threads := by
  obtain ⟨hlt, -⟩ := Array.getElem?_eq_some_iff.1 hworker
  exact h.size ▸ hlt

theorem Orderly.next?_eq_some_iff (h : execution.Orderly base) :
    execution.next? index = some (worker, task) ↔
      execution.workers[index]? = some worker ∧ worker.failure = none ∧
        worker.begun <
          share (base.quota execution.phase) execution.threads index ∧
        task = execution.upcoming worker := by
  rw [Execution.next?_eq_some_iff]
  constructor
  · rintro ⟨hworker, htask⟩
    have hindex := h.index index worker hworker
    have hlt := h.lt_threads hworker
    rw [h.task?_eq_some_iff (hindex ▸ hlt), hindex] at htask
    exact ⟨hworker, htask⟩
  · rintro ⟨hworker, htask⟩
    have hindex := h.index index worker hworker
    have hlt := h.lt_threads hworker
    rw [h.task?_eq_some_iff (hindex ▸ hlt), hindex]
    exact ⟨hworker, htask⟩

/-! ## How far a phase has come -/

theorem Orderly.begun_le_quota (h : execution.Orderly base) :
    execution.begun ≤ base.quota execution.phase := by
  unfold begun
  rcases Nat.eq_zero_or_pos execution.threads with hnone | hthreads
  · simp [hnone]
  · rw [← sum_share hthreads (base.quota execution.phase)]
    apply Finset.sum_le_sum
    intro index hindex
    exact h.begun_le index (Finset.mem_range.1 hindex)

theorem Orderly.begun_lt_quota (h : execution.Orderly base)
    (hnext : execution.next? index = some (worker, task)) :
    execution.begun < base.quota execution.phase := by
  obtain ⟨hworker, -, hdone, -⟩ := h.next?_eq_some_iff.1 hnext
  have hlt := h.lt_threads hworker
  have hbefore := begunBy_eq hworker
  rw [← sum_share (Nat.zero_lt_of_lt hlt) (base.quota execution.phase)]
  apply Finset.sum_lt_sum
  · intro other hother
    exact h.begun_le other (Finset.mem_range.1 hother)
  · exact ⟨index, Finset.mem_range.2 hlt, by rw [hbefore]; exact hdone⟩

theorem Orderly.begunBy_eq_share (h : execution.Orderly base)
    (hover : execution.Over)
    (hfailure : ∀ (index : Nat) (worker : Worker γ),
      execution.workers[index]? = some worker → worker.failure = none)
    (hindex : index < execution.threads) :
    execution.begunBy index =
      share (base.quota execution.phase) execution.threads index := by
  have hle := h.begun_le index hindex
  rw [← h.size] at hindex
  have hworker := Array.getElem?_eq_getElem hindex
  by_contra hne
  have hdone := begunBy_eq hworker
  have hnext := h.next?_eq_some_iff.2
    ⟨hworker, hfailure index _ hworker, by omega, rfl⟩
  rw [hover index] at hnext
  contradiction

theorem Orderly.begun_eq (h : execution.Orderly base) (hover : execution.Over)
    (hthreads : 0 < execution.threads)
    (hfailure : ∀ (index : Nat) (worker : Worker γ),
      execution.workers[index]? = some worker → worker.failure = none) :
    execution.begun = base.quota execution.phase := by
  rw [← sum_share hthreads (base.quota execution.phase)]
  apply Finset.sum_congr rfl
  intro index hindex
  exact h.begunBy_eq_share hover hfailure (Finset.mem_range.1 hindex)

theorem Orderly.total_eq (h : execution.Orderly base) (hover : execution.Over)
    (hthreads : 0 < execution.threads)
    (hfailure : ∀ (index : Nat) (worker : Worker γ),
      execution.workers[index]? = some worker → worker.failure = none) :
    execution.tally.total = base.quota execution.phase := by
  have hunbroken : execution.Unbroken := by
    intro index worker hworker
    rw [hfailure index worker hworker]
    exact nofun
  rw [← h.begun_eq hover hthreads hfailure]
  exact le_antisymm h.total_le (h.begun_le_total hunbroken)

/-! ## One turn -/

variable [Draws γ]

theorem Orderly.workers_perform (h : execution.Orderly base)
    (hworker : execution.workers[index]? = some worker) (task : Task)
    (other : Nat) :
    (execution.perform worker task).workers[other]? =
      if other = index then
        some { worker with
          generator := (execution.attempt worker task).2.generator
          begun := worker.begun + 1
          failure :=
            (settle (execution.attempt worker task).2.result
              (blame (execution.attempt worker task).1 task)).2 }
      else execution.workers[other]? := by
  obtain ⟨hlt, -⟩ := Array.getElem?_eq_some_iff.1 hworker
  rw [perform_eq]
  unfold conclude
  simp only
  rw [h.index index worker hworker, Array.getElem?_setIfInBounds]
  by_cases heq : index = other
  · subst heq
    simp [hlt]
  · rw [if_neg heq, if_neg (Ne.symm heq)]

theorem Orderly.begunBy_perform (h : execution.Orderly base)
    (hworker : execution.workers[index]? = some worker) (task : Task)
    (other : Nat) :
    (execution.perform worker task).begunBy other =
      execution.begunBy other + if other = index then 1 else 0 := by
  unfold begunBy
  rw [h.workers_perform hworker]
  by_cases heq : other = index
  · subst heq
    simp [hworker]
  · simp [heq]

theorem Orderly.begun_perform (h : execution.Orderly base)
    (hworker : execution.workers[index]? = some worker) (task : Task) :
    (execution.perform worker task).begun = execution.begun + 1 := by
  have hlt := h.lt_threads hworker
  unfold begun
  rw [threads_perform,
    Finset.sum_congr rfl fun other _ => h.begunBy_perform hworker task other,
    Finset.sum_add_distrib, Finset.sum_ite_eq',
    if_pos (Finset.mem_range.2 hlt)]

/-- After a turn that leaves no worker cut short, none was before it, and the
operation has been counted. -/
theorem Orderly.unbroken_of_perform (h : execution.Orderly base)
    (hnext : execution.next? index = some (worker, task))
    (hunbroken : (execution.perform worker task).Unbroken) :
    execution.Unbroken ∧
      (settle (execution.attempt worker task).2.result
        (blame (execution.attempt worker task).1 task)).1.isSome := by
  obtain ⟨hworker, hfailure, -⟩ := h.next?_eq_some_iff.1 hnext
  have hworkers := h.workers_perform hworker task
  constructor
  · intro other found hfound
    by_cases heq : other = index
    · subst heq
      rw [hworker] at hfound
      cases hfound
      rw [hfailure]
      exact nofun
    · apply hunbroken other found
      rw [hworkers, if_neg heq]
      exact hfound
  · have hat := hworkers index
    rw [if_pos rfl] at hat
    exact settle_fst_isSome (hunbroken index _ hat)

theorem workload_attempt (execution : Execution γ) (worker : Worker γ) :
    (execution.attempt worker (execution.upcoming worker)).2.bench.workload =
      if execution.phase = .run ∧
        (execution.attempt worker (execution.upcoming worker)).1 = .insert
      then execution.bench.workload.claim.2
      else execution.bench.workload := by
  unfold upcoming
  cases execution.phase with
  | load => exact Bench.workload_write _ _ _
  | run =>
      simp only [attempt, true_and]
      exact Bench.workload_perform _ _ _ _

theorem Orderly.workload_perform (h : execution.Orderly base)
    (hworker : execution.workers[index]? = some worker) :
    ∃ claims ≤
        (execution.perform worker (execution.upcoming worker)).claimLimit,
      (execution.perform worker
        (execution.upcoming worker)).bench.workload = base.after claims := by
  obtain ⟨claims, hclaims, hbefore⟩ := h.workload
  have hworkload := execution.workload_attempt worker
  rw [hbefore, Workload.claim_after] at hworkload
  unfold claimLimit at hclaims ⊢
  rw [bench_perform, hworkload, phase_perform, h.begun_perform hworker]
  cases hphase : execution.phase with
  | load =>
      rw [hphase] at hclaims
      exact ⟨claims, hclaims, rfl⟩
  | run =>
      rw [hphase] at hclaims
      simp only [true_and]
      split
      · exact ⟨claims + 1, Nat.succ_le_succ hclaims, rfl⟩
      · exact ⟨claims, hclaims.trans (Nat.le_succ _), rfl⟩

theorem Orderly.perform (h : execution.Orderly base)
    (hnext : execution.next? index = some (worker, task)) :
    (execution.perform worker task).Orderly base := by
  obtain ⟨hworker, -, hdone, rfl⟩ := h.next?_eq_some_iff.1 hnext
  have hworkers := h.workers_perform hworker (execution.upcoming worker)
  have hbegunBy := h.begunBy_perform hworker (execution.upcoming worker)
  have hbefore := begunBy_eq hworker
  constructor
  · rw [threads_perform, perform_eq]
    exact (Array.size_setIfInBounds ..).trans h.size
  · intro other found hfound
    rw [hworkers] at hfound
    split at hfound
    · rename_i heq
      cases hfound
      rw [heq]
      exact h.index index worker hworker
    · exact h.index other found hfound
  · intro other hother
    rw [threads_perform] at hother
    have hold := h.begun_le other hother
    rw [hbegunBy, phase_perform, threads_perform]
    split
    · rename_i heq
      subst heq
      omega
    · exact hold
  · have hold := h.total_le
    rw [h.begun_perform hworker, tally_perform, Tally.total_count?]
    split <;> omega
  · intro hunbroken
    obtain ⟨hbroken, hcounted⟩ := h.unbroken_of_perform hnext hunbroken
    have hold := h.begun_le_total hbroken
    rw [h.begun_perform hworker, tally_perform, Tally.total_count?,
      if_pos hcounted]
    omega
  · exact h.workload_perform hworker

theorem Orderly.turns (h : execution.Orderly base) (order : List Nat) :
    (execution.turns order).Orderly base := by
  apply turns_keep (motive := fun reached => reached.Orderly base)
  · intro reached index worker task hreached hnext
    exact hreached.perform hnext
  · exact h

theorem Orderly.workers_turns (h : execution.Orderly base) {order : List Nat}
    (hindex : index ∉ order) :
    (execution.turns order).workers[index]? = execution.workers[index]? := by
  induction order generalizing execution with
  | nil => rfl
  | cons other order ih =>
      rw [List.mem_cons, not_or] at hindex
      cases hnext : execution.next? other with
      | none =>
          rw [turns_cons_of_none hnext]
          exact ih h hindex.2
      | some next =>
          obtain ⟨worker, task⟩ := next
          obtain ⟨hworker, -⟩ := Execution.next?_eq_some_iff.1 hnext
          rw [turns_cons_of_some hnext, ih (h.perform hnext) hindex.2,
            h.workers_perform hworker, if_neg hindex.1]

theorem Orderly.workers_turns_of_failure (h : execution.Orderly base)
    (hworker : execution.workers[index]? = some worker) {error : PhaseError}
    (hfailure : worker.failure = some error) (order : List Nat) :
    (execution.turns order).workers[index]? = some worker := by
  have hkept := turns_keep
    (motive := fun reached =>
      reached.Orderly base ∧ reached.workers[index]? = some worker)
    (fun reached other someone task ⟨hreached, hkept⟩ hnext => by
      obtain ⟨hother, hnone, -⟩ := hreached.next?_eq_some_iff.1 hnext
      refine ⟨hreached.perform hnext, ?_⟩
      rw [hreached.workers_perform hother]
      split
      · rename_i heq
        rw [heq, hother] at hkept
        cases hkept
        rw [hnone] at hfailure
        contradiction
      · exact hkept)
    ⟨h, hworker⟩ order
  exact hkept.2

/-! ## Starting -/

def joined (γ : Type) [Draws γ] (phase : Phase) (bench : Bench) (threads : Nat)
    (seed : UInt64) (count : Nat) : Execution γ :=
  (List.range count).foldl (addWorker seed)
    { phase, threads, bench, workers := #[], tally := {} }

theorem joined_succ (phase : Phase) (bench : Bench) (threads : Nat)
    (seed : UInt64) (count : Nat) :
    joined γ phase bench threads seed (count + 1) =
      addWorker seed (joined γ phase bench threads seed count) count := by
  simp [joined, List.range_succ]

theorem workers_addWorker (seed : UInt64) (execution : Execution γ)
    (index : Nat) :
    ∃ failure, (addWorker seed execution index).workers =
      execution.workers.push
        ⟨index, Draws.ofSeed (seed + UInt64.ofNat index), 0, failure⟩ :=
  ⟨_, rfl⟩

variable {phase : Phase} {bench : Bench} {threads : Nat} {seed : UInt64}

/-- Workers that have just been bound, or have failed to be. -/
theorem joined_spec (phase : Phase) (bench : Bench) (threads : Nat)
    (seed : UInt64) (count : Nat) :
    let joined := joined γ phase bench threads seed count
    joined.phase = phase ∧ joined.threads = threads ∧ joined.tally = {} ∧
      joined.bench.workload = bench.workload ∧ joined.workers.size = count ∧
      ∀ (index : Nat) (worker : Worker γ),
        joined.workers[index]? = some worker →
          worker.index = index ∧ worker.begun = 0 ∧
            worker.generator = Draws.ofSeed (seed + UInt64.ofNat index) := by
  induction count with
  | zero => simp [joined]
  | succ count ih =>
      obtain ⟨hphase, hthreads, htally, hworkload, hsize, hworkers⟩ := ih
      obtain ⟨failure, hpush⟩ := workers_addWorker seed
        (joined γ phase bench threads seed count) count
      rw [joined_succ]
      refine ⟨hphase, hthreads, htally, hworkload, ?_, ?_⟩
      · rw [hpush, Array.size_push, hsize]
      · intro index worker hworker
        rw [hpush, Array.getElem?_push, hsize] at hworker
        split at hworker
        · rename_i hlast
          cases hworker
          exact ⟨hlast.symm, rfl, by rw [hlast]⟩
        · exact hworkers index worker hworker

@[simp] theorem phase_start : (start γ phase bench threads seed).phase = phase :=
  (joined_spec phase bench threads seed threads).1

@[simp] theorem threads_start :
    (start γ phase bench threads seed).threads = threads :=
  (joined_spec phase bench threads seed threads).2.1

@[simp] theorem tally_start : (start γ phase bench threads seed).tally = {} :=
  (joined_spec phase bench threads seed threads).2.2.1

@[simp] theorem workload_start :
    (start γ phase bench threads seed).bench.workload = bench.workload :=
  (joined_spec phase bench threads seed threads).2.2.2.1

theorem begun_start
    (h : (start γ phase bench threads seed).workers[index]? = some worker) :
    worker.begun = 0 :=
  ((joined_spec phase bench threads seed threads).2.2.2.2.2 index worker h).2.1

theorem generator_start
    (h : (start γ phase bench threads seed).workers[index]? = some worker) :
    worker.generator = Draws.ofSeed (seed + UInt64.ofNat index) :=
  ((joined_spec phase bench threads seed threads).2.2.2.2.2 index worker h).2.2

@[simp] theorem begunBy_start (index : Nat) :
    (start γ phase bench threads seed).begunBy index = 0 := by
  unfold begunBy
  cases hworker : (start γ phase bench threads seed).workers[index]? with
  | none => rfl
  | some worker => exact begun_start hworker

theorem nothing_begun_start : (start γ phase bench threads seed).begun = 0 := by
  simp [begun]

theorem orderly_start :
    (start γ phase bench threads seed).Orderly bench.workload := by
  obtain ⟨-, hthreads, -, -, hsize, hworkers⟩ :=
    joined_spec (γ := γ) phase bench threads seed threads
  constructor
  · exact hsize.trans hthreads.symm
  · intro index worker hworker
    exact (hworkers index worker hworker).1
  · intro index hindex
    rw [begunBy_start]
    exact Nat.zero_le _
  · rw [tally_start]
    exact Nat.zero_le _
  · intro _
    rw [nothing_begun_start]
    exact Nat.zero_le _
  · exact ⟨0, Nat.zero_le _, by rw [workload_start, Workload.after_zero]⟩

theorem first_turn
    (hfailure : ∀ (index : Nat) (worker : Worker γ),
      (start γ phase bench threads seed).workers[index]? = some worker →
        worker.failure = none)
    (hindex : index < threads) {order : List Nat} (hnew : index ∉ order)
    (hshare : 0 < share (bench.workload.quota phase) threads index) :
    ∃ worker task,
      ((start γ phase bench threads seed).turns order).next? index =
          some (worker, task) ∧
        worker.generator = Draws.ofSeed (seed + UInt64.ofNat index) := by
  have hstart : (start γ phase bench threads seed).Orderly bench.workload :=
    orderly_start
  have hsize := hstart.size
  rw [threads_start] at hsize
  rw [← hsize] at hindex
  have hworker := Array.getElem?_eq_getElem hindex
  refine ⟨_, _, (hstart.turns order).next?_eq_some_iff.2
    ⟨?_, hfailure index _ hworker, ?_, rfl⟩, generator_start hworker⟩
  · rw [hstart.workers_turns hnew]
    exact hworker
  · rw [begun_start hworker, phase_turns, phase_start, threads_turns,
      threads_start]
    exact hshare

/-! ## One worker after another -/

theorem runWorker_eq_turns (index steps : Nat) (execution : Execution γ) :
    runWorker index steps execution =
      execution.turns (List.replicate steps index) := by
  induction steps generalizing execution with
  | zero => rfl
  | succ steps ih =>
      rw [runWorker_succ, List.replicate_succ]
      unfold Execution.turns at ih ⊢
      rw [List.foldl_cons]
      cases hstep : execution.step? index with
      | some next => exact ih next
      | none =>
          rw [Option.getD_none, ← ih]
          cases steps with
          | zero => rfl
          | succ steps => rw [runWorker_succ, hstep]

theorem Orderly.next?_perform_eq_none (h : execution.Orderly base)
    (hnext : execution.next? index = some (worker, task)) {other : Nat}
    (hother : execution.next? other = none) :
    (execution.perform worker task).next? other = none := by
  obtain ⟨hworker, -⟩ := Execution.next?_eq_some_iff.1 hnext
  have hne : other ≠ index := by
    rintro rfl
    rw [hnext] at hother
    contradiction
  rw [Option.eq_none_iff_forall_ne_some] at hother ⊢
  rintro ⟨found, next⟩ hfound
  obtain ⟨hat, hfailure, hdone, -⟩ :=
    (h.perform hnext).next?_eq_some_iff.1 hfound
  rw [h.workers_perform hworker, if_neg hne] at hat
  rw [phase_perform, threads_perform] at hdone
  exact hother (found, execution.upcoming found)
    (h.next?_eq_some_iff.2 ⟨hat, hfailure, hdone, rfl⟩)

theorem Orderly.next?_turns_eq_none (h : execution.Orderly base) {other : Nat}
    (hother : execution.next? other = none) (order : List Nat) :
    (execution.turns order).next? other = none := by
  have hkept := turns_keep
    (motive := fun reached => reached.Orderly base ∧ reached.next? other = none)
    (fun _ _ _ _ ⟨hreached, hnone⟩ hnext =>
      ⟨hreached.perform hnext, hreached.next?_perform_eq_none hnext hnone⟩)
    ⟨h, hother⟩ order
  exact hkept.2

theorem Orderly.next?_runWorker (h : execution.Orderly base)
    (hindex : index < execution.threads) {steps : Nat}
    (hsteps : share (base.quota execution.phase) execution.threads index ≤
      execution.begunBy index + steps) :
    (runWorker index steps execution).next? index = none := by
  induction steps generalizing execution with
  | zero =>
      rw [Option.eq_none_iff_forall_ne_some]
      rintro ⟨worker, task⟩ hnext
      obtain ⟨hworker, -, hdone, -⟩ := h.next?_eq_some_iff.1 hnext
      simp only [begunBy, hworker] at hsteps
      omega
  | succ steps ih =>
      unfold runWorker
      cases hnext : execution.next? index with
      | none => exact hnext
      | some next =>
          obtain ⟨worker, task⟩ := next
          obtain ⟨hworker, -⟩ := Execution.next?_eq_some_iff.1 hnext
          have hbegunBy := h.begunBy_perform hworker task index
          rw [if_pos rfl] at hbegunBy
          apply ih (h.perform hnext)
          · rw [threads_perform]
            exact hindex
          · rw [hbegunBy, phase_perform, threads_perform]
            omega

theorem Orderly.first_workers (h : execution.Orderly base) {count : Nat}
    (hcount : count ≤ execution.threads) :
    ∃ order,
      (List.range count).foldl
          (fun execution index => runWorker index execution.limit execution)
          execution = execution.turns order ∧
        ∀ index, index < count →
          (execution.turns order).next? index = none := by
  induction count with
  | zero => exact ⟨[], rfl, by simp⟩
  | succ count ih =>
      obtain ⟨order, horder, hdone⟩ := ih (by omega)
      have hreached := h.turns order
      have hlt : count < (execution.turns order).threads := by
        rw [threads_turns]
        omega
      refine ⟨order ++ List.replicate (execution.turns order).limit count,
        ?_, ?_⟩
      · rw [List.range_succ, List.foldl_append, horder, List.foldl_cons,
          List.foldl_nil, runWorker_eq_turns, turns_append]
      · intro index hindex
        rw [turns_append]
        by_cases hlast : index = count
        · subst hlast
          have hshare :=
            share_le hlt (base.quota (execution.turns order).phase)
          rw [← runWorker_eq_turns]
          apply hreached.next?_runWorker hlt
          rw [hreached.limit_eq]
          omega
        · exact hreached.next?_turns_eq_none (hdone index (by omega)) _

/-- Letting one worker after the other come to its end is an order in which
nothing is left to do. -/
theorem finish_eq_turns (h : execution.Orderly base) :
    ∃ order, execution.finish = execution.turns order ∧
      (execution.turns order).Over := by
  obtain ⟨order, horder, hdone⟩ := h.first_workers le_rfl
  refine ⟨order, horder, ?_⟩
  intro index
  by_cases hindex : index < execution.threads
  · exact hdone index hindex
  · have hreached := h.turns order
    have hthreads := execution.threads_turns order
    rw [Option.eq_none_iff_forall_ne_some]
    rintro ⟨worker, task⟩ hnext
    obtain ⟨hworker, -⟩ := Execution.next?_eq_some_iff.1 hnext
    have hlt := hreached.lt_threads hworker
    omega

/-- What executing a phase comes to is what some order of turns comes to, in which
nothing is left to do. -/
theorem execute_eq_turns (phase : Phase) (bench : Bench) (threads : Nat)
    (seed : UInt64) :
    ∃ order, ((start γ phase bench threads seed).turns order).Over ∧
      bench.execute γ phase threads seed =
        (((start γ phase bench threads seed).turns order).result,
          ((start γ phase bench threads seed).turns order).bench) := by
  have hstart : (start γ phase bench threads seed).Orderly bench.workload :=
    orderly_start
  obtain ⟨order, hfinish, hover⟩ := finish_eq_turns hstart
  refine ⟨order, hover, ?_⟩
  unfold Bench.execute
  rw [← hfinish]

end TieredCache.Execution
