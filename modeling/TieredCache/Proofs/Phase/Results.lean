import Mathlib
import TieredCache.Proofs.Phase.Underway

/-!
# What phases report

A report has the counts of every kind of operation that came up.  The phase
itself fails with what stopped the first of its workers.  Where writes are
accepted no operation fails, and where no scan can be cut short either, nothing
stops any worker.
-/

namespace TieredCache

/-! ## Rows -/

namespace Tally

variable {tally : Tally} {operation : Operation} {counts : OutcomeCounts}

theorem mem_rows_iff : (operation, counts) ∈ tally.rows ↔
    tally.of operation = counts ∧ 0 < counts.total := by
  have hall : operation ∈ Operation.all := by cases operation <;> decide
  simp only [rows, List.mem_filter, List.mem_map, Prod.mk.injEq,
    decide_eq_true_eq]
  constructor
  · rintro ⟨⟨other, -, rfl, hcounts⟩, hcounted⟩
    exact ⟨hcounts, hcounted⟩
  · rintro ⟨hcounts, hcounted⟩
    exact ⟨⟨operation, hall, rfl, hcounts⟩, hcounted⟩

theorem of_eq_of_mem_rows (h : (operation, counts) ∈ tally.rows) :
    tally.of operation = counts := (mem_rows_iff.1 h).1

theorem rows_of_inserts (h : 0 < counts.total) :
    ({ inserts := counts } : Tally).rows = [(.insert, counts)] := by
  have hnone : ¬0 < ({} : OutcomeCounts).total := by decide
  simp [rows, Operation.all, Tally.of, h, hnone]

theorem total_of_inserts (counts : OutcomeCounts) :
    ({ inserts := counts } : Tally).total = counts.total := by
  simp [total, OutcomeCounts.total]

theorem foldl_total_filter (rows : List (Operation × OutcomeCounts))
    (operations : Nat) :
    (rows.filter fun (_, counts) => 0 < counts.total).foldl
        (fun operations (_, counts) => operations + counts.total) operations =
      rows.foldl
        (fun operations (_, counts) => operations + counts.total)
        operations := by
  induction rows generalizing operations with
  | nil => rfl
  | cons row rest ih =>
      by_cases hcounted : 0 < row.2.total
      · rw [List.filter_cons_of_pos (by simpa using hcounted)]
        exact ih _
      · rw [List.filter_cons_of_neg (by simpa using hcounted), List.foldl_cons,
          ih]
        simp only
        congr 1
        omega

theorem operations_rows (tally : Tally) (phase : Phase) (threads : Nat) :
    Report.operations ⟨phase, threads, tally.rows⟩ = tally.total := by
  unfold Report.operations rows
  rw [foldl_total_filter]
  simp [Operation.all, Tally.of, total]

end Tally

theorem Report.operations_eq_sum (report : Report) :
    report.operations = (report.rows.map fun (_, counts) =>
      counts.ok + counts.notFound + counts.failed).sum := by
  unfold operations
  rw [List.sum_eq_foldl, List.foldl_map]
  rfl

namespace Execution

variable {γ : Type} {execution : Execution γ} {base : Workload} {first : Bench}
  {room index : Nat} {worker : Worker γ} {task : Task}

/-! ## Results -/

theorem result_eq_ok (h : ∀ (index : Nat) (worker : Worker γ),
    execution.workers[index]? = some worker → worker.failure = none) :
    execution.result = .ok
      ⟨execution.phase, execution.threads, execution.tally.rows⟩ := by
  have hnone : execution.workers.toList.findSome? Worker.failure = none := by
    rw [List.findSome?_eq_none_iff]
    intro worker hworker
    obtain ⟨index, hindex⟩ := List.getElem?_of_mem hworker
    rw [Array.getElem?_toList] at hindex
    exact h index worker hindex
  unfold result
  rw [hnone]

theorem of_result_eq_ok {report : Report} (h : execution.result = .ok report) :
    (∀ (index : Nat) (worker : Worker γ),
      execution.workers[index]? = some worker → worker.failure = none) ∧
      report = ⟨execution.phase, execution.threads, execution.tally.rows⟩ := by
  unfold result at h
  cases hfirst : execution.workers.toList.findSome? Worker.failure with
  | some error => simp [hfirst] at h
  | none =>
      simp only [hfirst, Except.ok.injEq] at h
      refine ⟨fun index worker hworker => ?_, h.symm⟩
      rw [← Array.getElem?_toList] at hworker
      exact List.findSome?_eq_none_iff.1 hfirst worker
        (List.mem_of_getElem? hworker)

theorem result_eq_error {error : PhaseError}
    (hworker : execution.workers[0]? = some worker)
    (hfailure : worker.failure = some error) :
    execution.result = .error error := by
  rw [← Array.getElem?_toList] at hworker
  unfold result
  cases hlist : execution.workers.toList with
  | nil => simp [hlist] at hworker
  | cons head rest =>
      rw [hlist, List.getElem?_cons_zero, Option.some.injEq] at hworker
      rw [hworker, List.findSome?_cons_of_isSome (by rw [hfailure]; rfl)]
      simp [hfailure]

theorem exists_of_result_eq_error {error : PhaseError}
    (h : execution.result = .error error) :
    ∃ (index : Nat) (worker : Worker γ),
      execution.workers[index]? = some worker ∧
        worker.failure = some error := by
  unfold result at h
  cases hfirst : execution.workers.toList.findSome? Worker.failure with
  | none => simp [hfirst] at h
  | some found =>
      simp only [hfirst, Except.error.injEq] at h
      obtain ⟨worker, hworker, hfailure⟩ :=
        List.exists_of_findSome?_eq_some hfirst
      obtain ⟨index, hindex⟩ := List.getElem?_of_mem hworker
      rw [Array.getElem?_toList] at hindex
      exact ⟨index, worker, hindex, hfailure.trans (congrArg some h)⟩

/-! ## Phases without refusals -/

/-- No operation has failed, and at most scans for which there can be no memory
have ended workers. -/
structure Unrefused (execution : Execution γ) (first : Bench) : Prop where
  failure : ∀ (index : Nat) (worker : Worker γ),
    execution.workers[index]? = some worker → worker.failure = none ∨
      worker.failure = some .cutShort ∧ execution.phase = .run ∧
        ¬first.workload.ScansFit first.store.scanner.lookupLimit
  failed : ∀ operation, (execution.tally.of operation).failed = 0

theorem Unrefused.unstopped (h : execution.Unrefused first)
    (hfit : execution.phase = .run →
      first.workload.ScansFit first.store.scanner.lookupLimit)
    (index : Nat) (worker : Worker γ)
    (hworker : execution.workers[index]? = some worker) :
    worker.failure = none := by
  rcases h.failure index worker hworker with hnone | ⟨-, hphase, hlong⟩
  · exact hnone
  · exact absurd (hfit hphase) hlong

theorem Unrefused.failed_of_result (h : execution.Unrefused first)
    {report : Report} (hresult : execution.result = .ok report)
    {operation : Operation} {counts : OutcomeCounts}
    (hrow : (operation, counts) ∈ report.rows) : counts.failed = 0 := by
  obtain ⟨-, rfl⟩ := of_result_eq_ok hresult
  rw [← Tally.of_eq_of_mem_rows hrow]
  exact h.failed operation

theorem Unrefused.result (h : execution.Unrefused first) :
    (∃ report, execution.result = .ok report) ∨
      execution.result = .error .cutShort ∧
        ¬first.workload.ScansFit first.store.scanner.lookupLimit := by
  cases hresult : execution.result with
  | ok report => exact .inl ⟨report, rfl⟩
  | error error =>
      obtain ⟨index, worker, hworker, herror⟩ :=
        exists_of_result_eq_error hresult
      rcases h.failure index worker hworker with hnone | ⟨hcut, -, hlong⟩
      · rw [hnone] at herror
        contradiction
      · rw [hcut] at herror
        cases herror
        exact .inr ⟨rfl, hlong⟩

variable [Draws γ]

theorem Orderly.result_of_first_turn (h : execution.Orderly base)
    (hthreads : execution.threads = 1)
    (hnext : execution.next? 0 = some (worker, task)) {error : PhaseError}
    (hstop : (settle (execution.attempt worker task).2.result
      (blame (execution.attempt worker task).1 task)).2 = some error)
    {order : List Nat} (hover : (execution.turns order).Over) :
    (execution.turns order).result = .error error := by
  obtain ⟨hworker, -⟩ := Execution.next?_eq_some_iff.1 hnext
  induction order with
  | nil =>
      have hnone : execution.next? 0 = none := hover 0
      rw [hnext] at hnone
      contradiction
  | cons index order ih =>
      cases hturn : execution.next? index with
      | none =>
          rw [turns_cons_of_none hturn] at hover ⊢
          exact ih hover
      | some next =>
          obtain ⟨someone, other⟩ := next
          obtain ⟨hsomeone, -⟩ := Execution.next?_eq_some_iff.1 hturn
          have hlt := h.lt_threads hsomeone
          have hfirst : index = 0 := by omega
          subst hfirst
          rw [hnext] at hturn
          cases hturn
          have hstopped := h.workers_perform hworker task 0
          rw [if_pos rfl] at hstopped
          rw [turns_cons_of_some hnext]
          exact result_eq_error ((h.perform hnext).workers_turns_of_failure
            hstopped hstop order) hstop

/-- Where writes are accepted, only a scan can end a worker, and only by being cut
short. -/
theorem Underway.halt_of_accepted (h : execution.Underway first room)
    (haccepted : ∀ shard, first.workload.answer room shard = .ok true)
    (hnext : execution.next? index = some (worker, task)) {halt : Halt}
    (hhalt : (execution.attempt worker task).2.result = .error halt) :
    halt = .cutShort ∧ execution.phase = .run ∧
      ¬first.workload.ScansFit first.store.scanner.lookupLimit := by
  obtain ⟨-, hallowed⟩ := h.attempt hnext
  rw [hhalt] at hallowed
  rcases hallowed.of_error with ⟨hscan, hcut, hlong⟩ | ⟨-, shard, hanswer⟩
  · refine ⟨hcut, ?_, hlong⟩
    cases hphase : execution.phase with
    | load =>
        obtain ⟨-, -, -, hinsert, -⟩ := h.attempt_load hphase hnext
        rw [hinsert] at hscan
        contradiction
    | run => rfl
  · rw [haccepted shard] at hanswer
    contradiction

theorem Underway.unrefused_perform (h : execution.Underway first room)
    (haccepted : ∀ shard, first.workload.answer room shard = .ok true)
    (hrefused : execution.Unrefused first)
    (hnext : execution.next? index = some (worker, task)) :
    (execution.perform worker task).Unrefused first := by
  obtain ⟨hworker, -⟩ := Execution.next?_eq_some_iff.1 hnext
  constructor
  · intro other someone hsomeone
    rw [phase_perform]
    rw [h.orderly.workers_perform hworker] at hsomeone
    split at hsomeone
    · cases hsomeone
      cases hresult : (execution.attempt worker task).2.result with
      | ok found => exact .inl rfl
      | error halt =>
          obtain ⟨rfl, hlong⟩ :=
            h.halt_of_accepted haccepted hnext hresult
          exact .inr ⟨rfl, hlong⟩
    · exact hrefused.failure other someone hsomeone
  · intro operation
    have hold := hrefused.failed operation
    rw [of_tally_perform]
    split
    · split
      · exact hold
      · exact hold
      · rename_i e hresult
        obtain ⟨hcut, -⟩ := h.halt_of_accepted haccepted hnext hresult
        cases hcut
      · exact hold
    · exact hold

theorem Underway.unrefused_turns (h : execution.Underway first room)
    (haccepted : ∀ shard, first.workload.answer room shard = .ok true)
    (hrefused : execution.Unrefused first) (order : List Nat) :
    (execution.turns order).Unrefused first := by
  have hkept := turns_keep
    (motive := fun reached =>
      reached.Underway first room ∧ reached.Unrefused first)
    (fun reached index worker task ⟨hreached, hkept⟩ hnext =>
      ⟨hreached.perform hnext,
        hreached.unrefused_perform haccepted hkept hnext⟩)
    ⟨h, hrefused⟩ order
  exact hkept.2

theorem unrefused_start {phase : Phase} {bench : Bench} {threads : Nat}
    {seed : UInt64}
    (h : ∀ (index : Nat) (worker : Worker γ),
      (start γ phase bench threads seed).workers[index]? = some worker →
        worker.failure = none) :
    (start γ phase bench threads seed).Unrefused first := by
  refine ⟨fun index worker hworker => .inl (h index worker hworker), ?_⟩
  intro operation
  rw [tally_start]
  cases operation <;> rfl

theorem Underway.unrefused_run (h : execution.Underway first room)
    (hphase : execution.phase = .load)
    (haccepted : ∀ shard, first.workload.answer room shard = .ok true)
    {runners : Nat} (hrunners : runners ≤ first.store.routing.workerLimit)
    (seed : UInt64) (order : List Nat) :
    ((start γ .run execution.bench runners seed).turns order).Unrefused
      execution.bench := by
  obtain ⟨hstart, hfailure⟩ := h.run_start hphase runners seed
  refine hstart.unrefused_turns ?_ (unrefused_start (hfailure hrunners)) order
  rw [h.workload_of_load hphase]
  exact haccepted

end Execution

end TieredCache
