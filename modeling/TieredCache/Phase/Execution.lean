import TieredCache.Phase.Step
import TieredCache.Workload.Share

/-!
# Executing a phase

Workers take turns at a store, one whole operation at a time.  A worker has a
random sequence of its own; it stops when its share is done, or when an operation
fails for good or is cut short, and the others go on.  Here the workers follow
each other, each to its end; a step is given for every worker, so other orders
can be stated.
-/

namespace TieredCache

structure Worker (γ : Type) where
  index : Nat
  generator : γ
  begun : Nat
  failure : Option PhaseError

structure Execution (γ : Type) where
  phase : Phase
  threads : Nat
  bench : Bench
  workers : Array (Worker γ)
  tally : Tally

/-- What a worker does next: write the record of a number, or an operation that
it draws. -/
inductive Task where
  | load (id : Nat)
  | run
  deriving DecidableEq, Repr

namespace Execution

variable {γ : Type} [Draws γ]

/-! ## Starting -/

def addWorker (seed : UInt64) (execution : Execution γ) (index : Nat) :
    Execution γ :=
  let (registered, store) := execution.bench.store.register index
  let failure :=
    match registered with
    | .ok _ => none
    | .error e => some (.registration e)
  let generator := Draws.ofSeed (seed + UInt64.ofNat index)
  { execution with
    bench := { execution.bench with store }
    workers := execution.workers.push ⟨index, generator, 0, failure⟩ }

def start (γ : Type) [Draws γ] (phase : Phase) (bench : Bench) (threads : Nat)
    (seed : UInt64) : Execution γ :=
  (List.range threads).foldl (addWorker seed)
    { phase, threads, bench, workers := #[], tally := {} }

/-! ## Steps -/

/-- What is left for a worker.  Loading, each takes every `threads`-th number
from its own on; running, each takes its share. -/
def task? (execution : Execution γ) (worker : Worker γ) : Option Task :=
  let workload := execution.bench.workload
  if worker.failure.isSome then none
  else
    match execution.phase with
    | .load =>
        let id := worker.index + worker.begun * execution.threads
        if id < workload.recordCount.toNat then some (.load id) else none
    | .run =>
        let total := workload.operationCount.toNat
        if worker.begun < share total execution.threads worker.index then
          some .run
        else none

/-- What comes of an operation: how it counts, unless it was cut short, and why it
was the last one of its worker, where it was. -/
def settle (result : Except Halt Bool) (failure : StoreError → PhaseError) :
    Option Outcome × Option PhaseError :=
  match result with
  | .ok found => (some (Outcome.ofFound found), none)
  | .error (.reported e) =>
      (some .failed, if e.isFatal then some (failure e) else none)
  | .error .cutShort => (none, some .cutShort)

@[inline] def conclude (execution : Execution γ) (worker : Worker γ)
    (operation : Operation) (performed : Bench.Performed γ)
    (failure : StoreError → PhaseError) : Execution γ :=
  let (outcome?, failure) := settle performed.result failure
  let worker :=
    { worker with
      generator := performed.generator, begun := worker.begun + 1, failure }
  { execution with
    bench := performed.bench
    workers := execution.workers.setIfInBounds worker.index worker
    tally := execution.tally.count? operation outcome? }

def perform (execution : Execution γ) (worker : Worker γ) :
    Task → Execution γ
  | .load id =>
      execution.conclude worker .insert
        (execution.bench.write id worker.generator) (.loading id)
  | .run =>
      let (operation, g) :=
        execution.bench.workload.nextOperation worker.generator
      execution.conclude worker operation
        (execution.bench.perform worker.index operation g) (.running operation)

def next? (execution : Execution γ) (index : Nat) :
    Option (Worker γ × Task) :=
  match execution.workers[index]? with
  | none => none
  | some worker => (execution.task? worker).map fun task => (worker, task)

def step? (execution : Execution γ) (index : Nat) : Option (Execution γ) :=
  (execution.next? index).map fun (worker, task) =>
    execution.perform worker task

def runWorker (index : Nat) : Nat → Execution γ → Execution γ
  | 0, execution => execution
  | steps + 1, execution =>
      match execution.next? index with
      | none => execution
      | some (worker, task) =>
          runWorker index steps (execution.perform worker task)

theorem runWorker_succ (index steps : Nat) (execution : Execution γ) :
    runWorker index (steps + 1) execution =
      match execution.step? index with
      | none => execution
      | some execution => runWorker index steps execution := by
  simp only [runWorker, step?]
  cases execution.next? index <;> rfl

def limit (execution : Execution γ) : Nat :=
  match execution.phase with
  | .load => execution.bench.workload.recordCount.toNat
  | .run => execution.bench.workload.operationCount.toNat

/-- All workers in turn, each to its end. -/
def finish (execution : Execution γ) : Execution γ :=
  (List.range execution.threads).foldl
    (fun execution index => runWorker index execution.limit execution)
    execution

/-! ## Results -/

/-- The report of a finished phase, or what stopped the first of the workers
that did not finish. -/
def result (execution : Execution γ) : Except PhaseError Report :=
  match execution.workers.toList.findSome? Worker.failure with
  | some error => .error error
  | none => .ok
      { phase := execution.phase
        threads := execution.threads
        rows := execution.tally.rows }

end Execution

/-- Executes a phase with draws of a kind; the store and the workload are left as
they are also when it fails. -/
def Bench.execute (γ : Type) [Draws γ] (bench : Bench) (phase : Phase)
    (threads : Nat) (seed : UInt64) : Except PhaseError Report × Bench :=
  let execution := (Execution.start γ phase bench threads seed).finish
  (execution.result, execution.bench)

end TieredCache
