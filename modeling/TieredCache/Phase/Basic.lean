import TieredCache.Store.Error
import TieredCache.Workload.Operation

/-!
# Phases and their reports

A benchmark loads its records first and then runs a mix of operations over them.
Every operation of a phase is counted once: it succeeded, it found nothing, or
it failed.  Only one that is cut short is not counted.
-/

namespace TieredCache

inductive Phase where
  | load
  | run
  deriving DecidableEq, Repr

def Phase.name : Phase → String
  | .load => "load"
  | .run => "run"

/-! ## Errors -/

/-- Why a worker stopped before its end: it could not be bound to a shard, or one
of its operations failed in a way that lets no other succeed, or was cut
short. -/
inductive PhaseError where
  | registration (cause : StoreError)
  | loading (id : Nat) (cause : StoreError)
  | running (operation : Operation) (cause : StoreError)
  | cutShort
  deriving DecidableEq, Repr

namespace PhaseError

def cause? : PhaseError → Option StoreError
  | .registration cause => some cause
  | .loading _ cause => some cause
  | .running _ cause => some cause
  | .cutShort => none

def chain : PhaseError → List String
  | .registration cause => cause.chain
  | .loading id cause => s!"load aborted at record {id}" :: cause.chain
  | .running operation cause =>
      s!"{operation.name} aborted the run" :: cause.chain
  | .cutShort => ["worker thread panicked"]

end PhaseError

/-! ## Counting -/

inductive Outcome where
  | ok
  | notFound
  | failed
  deriving DecidableEq, Repr

def Outcome.ofFound (found : Bool) : Outcome := if found then .ok else .notFound

structure OutcomeCounts where
  ok : Nat := 0
  notFound : Nat := 0
  failed : Nat := 0
  deriving DecidableEq, Repr

namespace OutcomeCounts

def total (counts : OutcomeCounts) : Nat :=
  counts.ok + counts.notFound + counts.failed

def count (counts : OutcomeCounts) : Outcome → OutcomeCounts
  | .ok => { counts with ok := counts.ok + 1 }
  | .notFound => { counts with notFound := counts.notFound + 1 }
  | .failed => { counts with failed := counts.failed + 1 }

@[simp] theorem total_count (counts : OutcomeCounts) (outcome : Outcome) :
    (counts.count outcome).total = counts.total + 1 := by
  cases outcome <;> simp only [count, total] <;> omega

end OutcomeCounts

structure Tally where
  reads : OutcomeCounts := {}
  updates : OutcomeCounts := {}
  scans : OutcomeCounts := {}
  inserts : OutcomeCounts := {}
  deletes : OutcomeCounts := {}
  deriving DecidableEq, Repr

namespace Tally

def of (tally : Tally) : Operation → OutcomeCounts
  | .read => tally.reads
  | .update => tally.updates
  | .scan => tally.scans
  | .insert => tally.inserts
  | .delete => tally.deletes

def count (tally : Tally) (operation : Operation) (outcome : Outcome) :
    Tally :=
  match operation with
  | .read => { tally with reads := tally.reads.count outcome }
  | .update => { tally with updates := tally.updates.count outcome }
  | .scan => { tally with scans := tally.scans.count outcome }
  | .insert => { tally with inserts := tally.inserts.count outcome }
  | .delete => { tally with deletes := tally.deletes.count outcome }

theorem of_count (tally : Tally) (operation other : Operation)
    (outcome : Outcome) :
    (tally.count operation outcome).of other =
      if other = operation then (tally.of other).count outcome
      else tally.of other := by
  cases operation <;> cases other <;> rfl

def count? (tally : Tally) (operation : Operation) : Option Outcome → Tally
  | some outcome => tally.count operation outcome
  | none => tally

def total (tally : Tally) : Nat :=
  tally.reads.total + tally.updates.total + tally.scans.total +
    tally.inserts.total + tally.deletes.total

@[simp] theorem total_count (tally : Tally) (operation : Operation)
    (outcome : Outcome) :
    (tally.count operation outcome).total = tally.total + 1 := by
  cases operation <;> simp only [total, count, OutcomeCounts.total_count] <;>
    omega

def rows (tally : Tally) : List (Operation × OutcomeCounts) :=
  (Operation.all.map fun operation => (operation, tally.of operation)).filter
    fun (_, counts) => 0 < counts.total

end Tally

/-! ## Reports -/

structure Report where
  phase : Phase
  threads : Nat
  rows : List (Operation × OutcomeCounts)
  deriving DecidableEq, Repr

def Report.operations (report : Report) : Nat :=
  report.rows.foldl (fun operations (_, counts) => operations + counts.total) 0

end TieredCache
