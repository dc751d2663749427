import Mathlib
import TieredCache.Phase.Execution
import TieredCache.Proofs.Workload.Records

/-!
# Turns of workers

Workers share out what a phase has to do, and take turns at whole operations in
some order.  A turn changes the bench as its operation does and counts what came
of it; only inserts change the workload, which claim a number.
-/

namespace TieredCache

/-! ## Shares -/

section Shares

variable {worker workers : Nat}

theorem sum_share (h : 0 < workers) (total : Nat) :
    ∑ worker ∈ Finset.range workers, share total workers worker = total := by
  have hfirst : (Finset.range workers).filter (· < total % workers) =
      Finset.range (total % workers) := by
    have hlt := Nat.mod_lt total h
    ext worker
    simp only [Finset.mem_filter, Finset.mem_range]
    omega
  unfold share
  rw [Finset.sum_add_distrib, ← Finset.card_filter, hfirst]
  simp only [Finset.sum_const, Finset.card_range, smul_eq_mul]
  exact Nat.div_add_mod total workers

theorem share_le (h : worker < workers) (total : Nat) :
    share total workers worker ≤ total := by
  have hsingle := Finset.single_le_sum (f := share total workers)
    (fun _ _ => Nat.zero_le _) (Finset.mem_range.2 h)
  rwa [sum_share (Nat.zero_lt_of_lt h)] at hsingle

theorem share_le_share_add_one (total workers worker other : Nat) :
    share total workers worker ≤ share total workers other + 1 :=
  (share_le_div_add_one ..).trans
    (Nat.add_le_add_right (div_le_share ..) 1)

theorem lt_share_iff (h : worker < workers) (total done : Nat) :
    done < share total workers worker ↔ worker + done * workers < total := by
  have hsplit := Nat.div_add_mod' total workers
  have hrest := Nat.mod_lt total (Nat.zero_lt_of_lt h)
  unfold share
  rcases lt_trichotomy done (total / workers) with hless | rfl | hmore
  · have hround := Nat.mul_le_mul_right workers (Nat.succ_le_of_lt hless)
    rw [Nat.succ_mul] at hround
    omega
  · split
    · omega
    · omega
  · have hround := Nat.mul_le_mul_right workers (Nat.succ_le_of_lt hmore)
    rw [Nat.succ_mul] at hround
    split
    · omega
    · omega

end Shares

/-! ## What an operation does to the workload -/

def Workload.quota (workload : Workload) : Phase → Nat
  | .load => workload.recordCount.toNat
  | .run => workload.operationCount.toNat

theorem Tally.total_count? (tally : Tally) (operation : Operation)
    (outcome? : Option Outcome) :
    (tally.count? operation outcome?).total =
      tally.total + if outcome?.isSome then 1 else 0 := by
  cases outcome? with
  | none => rfl
  | some outcome => exact tally.total_count operation outcome

theorem Tally.of_count? (tally : Tally) (operation other : Operation)
    (outcome? : Option Outcome) :
    (tally.count? operation outcome?).of other =
      match outcome? with
      | some outcome =>
          if other = operation then (tally.of other).count outcome
          else tally.of other
      | none => tally.of other := by
  cases outcome? with
  | none => rfl
  | some outcome => exact tally.of_count operation other outcome

namespace Bench

variable {γ : Type} [Draws γ] {bench : Bench}

theorem withExisting_cases (bench : Bench) (g : γ)
    (act : Nat → γ → Performed γ) :
    (bench.workload.nextInsert = 0 ∧
      bench.withExisting g act = ⟨.ok false, bench, g⟩) ∨
    ∃ id g', id < bench.workload.nextInsert.toNat ∧
      bench.withExisting g act = act id g' := by
  unfold withExisting
  rcases hexisting : bench.workload.existing? g with ⟨found, g'⟩
  cases found with
  | none =>
      left
      unfold Workload.existing? at hexisting
      by_cases hnone : bench.workload.nextInsert = 0
      · rw [if_pos hnone] at hexisting
        cases hexisting
        exact ⟨hnone, rfl⟩
      · rw [if_neg hnone] at hexisting
        cases hexisting
  | some id =>
      right
      refine ⟨id, g', ?_, rfl⟩
      apply Workload.lt_of_existing? (g := g)
      rw [hexisting]

theorem workload_withExisting (g : γ) {act : Nat → γ → Performed γ}
    (h : ∀ id g, (act id g).bench.workload = bench.workload) :
    (bench.withExisting g act).bench.workload = bench.workload := by
  rcases bench.withExisting_cases g act with ⟨-, hnone⟩ | ⟨id, g', -, hsome⟩
  · rw [hnone]
  · rw [hsome]
    exact h id g'

theorem workload_write (bench : Bench) (id : Nat) (g : γ) :
    (bench.write id g).bench.workload = bench.workload := by
  unfold write
  cases bench.workload.record? g <;> rfl

theorem workload_perform (bench : Bench) (worker : Nat)
    (operation : Operation) (g : γ) :
    (bench.perform worker operation g).bench.workload =
      if operation = .insert then bench.workload.claim.2
      else bench.workload := by
  cases operation with
  | insert => exact workload_write _ _ g
  | read => exact workload_withExisting g fun id g => rfl
  | scan => exact workload_withExisting g fun id g => rfl
  | update => exact workload_withExisting g (workload_write bench)
  | delete => exact workload_withExisting g fun id g => rfl

end Bench

namespace Execution

variable {γ : Type} {execution : Execution γ} {index : Nat}
  {worker : Worker γ} {task : Task}

def Over (execution : Execution γ) : Prop :=
  ∀ index, execution.next? index = none

theorem next?_eq_some_iff :
    execution.next? index = some (worker, task) ↔
      execution.workers[index]? = some worker ∧
        execution.task? worker = some task := by
  unfold next?
  cases execution.workers[index]? with
  | none => simp
  | some found =>
      simp only [Option.map_eq_some_iff, Prod.mk.injEq, Option.some.injEq]
      constructor
      · rintro ⟨next, hnext, rfl, rfl⟩
        exact ⟨rfl, hnext⟩
      · rintro ⟨rfl, hnext⟩
        exact ⟨task, hnext, rfl, rfl⟩

variable [Draws γ]

/-! ## Outcomes -/

theorem settle_fst_isSome {result : Except Halt Bool}
    {failure : StoreError → PhaseError}
    (h : (settle result failure).2 ≠ some .cutShort) :
    (settle result failure).1.isSome := by
  rcases result with (e | _) | found
  · rfl
  · exact absurd rfl h
  · rfl

/-! ## Turns -/

def attempt (execution : Execution γ) (worker : Worker γ) :
    Task → Operation × Bench.Performed γ
  | .load id => (.insert, execution.bench.write id worker.generator)
  | .run =>
      let (operation, g) :=
        execution.bench.workload.nextOperation worker.generator
      (operation, execution.bench.perform worker.index operation g)

def blame (operation : Operation) : Task → StoreError → PhaseError
  | .load id => .loading id
  | .run => .running operation

theorem perform_eq (execution : Execution γ) (worker : Worker γ) (task : Task) :
    execution.perform worker task =
      execution.conclude worker (execution.attempt worker task).1
        (execution.attempt worker task).2
        (blame (execution.attempt worker task).1 task) := by
  cases task <;> rfl

theorem phase_perform (execution : Execution γ) (worker : Worker γ) (task : Task) :
    (execution.perform worker task).phase = execution.phase := by
  rw [perform_eq]
  rfl

theorem threads_perform (execution : Execution γ) (worker : Worker γ)
    (task : Task) :
    (execution.perform worker task).threads = execution.threads := by
  rw [perform_eq]
  rfl

theorem bench_perform (execution : Execution γ) (worker : Worker γ) (task : Task) :
    (execution.perform worker task).bench =
      (execution.attempt worker task).2.bench := by
  rw [perform_eq]
  rfl

theorem tally_perform (execution : Execution γ) (worker : Worker γ) (task : Task) :
    (execution.perform worker task).tally =
      execution.tally.count? (execution.attempt worker task).1
        (settle (execution.attempt worker task).2.result
          (blame (execution.attempt worker task).1 task)).1 := by
  rw [perform_eq]
  rfl

/-- An operation counts as not found just when it found nothing and as failed just
when it was refused, and is left out of the counts when it was cut short. -/
theorem of_tally_perform (execution : Execution γ) (worker : Worker γ)
    (task : Task) (operation : Operation) :
    (execution.perform worker task).tally.of operation =
      if operation = (execution.attempt worker task).1 then
        match (execution.attempt worker task).2.result with
        | .ok true => (execution.tally.of operation).count .ok
        | .ok false => (execution.tally.of operation).count .notFound
        | .error (.reported _) => (execution.tally.of operation).count .failed
        | .error .cutShort => execution.tally.of operation
      else execution.tally.of operation := by
  rw [tally_perform, Tally.of_count?]
  rcases (execution.attempt worker task).2.result with (e | _) | (_ | _)
  · rfl
  · simp [settle]
  · rfl
  · rfl

/-- Workers take turns in an order; one that has nothing left to do is passed
over. -/
def turns (execution : Execution γ) (order : List Nat) : Execution γ :=
  order.foldl
    (fun execution index => (execution.step? index).getD execution) execution

theorem turns_cons_of_none (hnext : execution.next? index = none)
    (order : List Nat) :
    execution.turns (index :: order) = execution.turns order := by
  simp [turns, step?, hnext]

theorem turns_cons_of_some
    (hnext : execution.next? index = some (worker, task)) (order : List Nat) :
    execution.turns (index :: order) =
      (execution.perform worker task).turns order := by
  simp [turns, step?, hnext]

theorem turns_keep {motive : Execution γ → Prop}
    (hstep : ∀ execution index worker task, motive execution →
      execution.next? index = some (worker, task) →
        motive (execution.perform worker task))
    (h : motive execution) (order : List Nat) :
    motive (execution.turns order) := by
  induction order generalizing execution with
  | nil => exact h
  | cons index order ih =>
      cases hnext : execution.next? index with
      | none =>
          rw [turns_cons_of_none hnext]
          exact ih h
      | some next =>
          rw [turns_cons_of_some hnext]
          exact ih (hstep execution index _ _ h hnext)

theorem turns_append (execution : Execution γ) (order later : List Nat) :
    execution.turns (order ++ later) = (execution.turns order).turns later :=
  List.foldl_append

theorem threads_turns (execution : Execution γ) (order : List Nat) :
    (execution.turns order).threads = execution.threads := by
  apply turns_keep (motive := fun reached => reached.threads = execution.threads)
  · intro reached index worker task hreached hnext
    exact (threads_perform ..).trans hreached
  · rfl

theorem phase_turns (execution : Execution γ) (order : List Nat) :
    (execution.turns order).phase = execution.phase := by
  apply turns_keep (motive := fun reached => reached.phase = execution.phase)
  · intro reached index worker task hreached hnext
    exact (phase_perform ..).trans hreached
  · rfl

end Execution

end TieredCache
