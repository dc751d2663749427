import TieredCache.Phase.Basic
import TieredCache.Store.Basic
import TieredCache.Workload.Basic

/-!
# Single operations of a phase

An operation draws what it needs, acts on the store, and says whether it found
what it was about.  An operation on a record that exists finds nothing while
there is none, and then it draws nothing else.
-/

namespace TieredCache

structure Bench where
  store : Store
  workload : Workload

namespace Bench

structure Performed (γ : Type) where
  result : Except Halt Bool
  bench : Bench
  generator : γ

variable {γ : Type} [Draws γ]

def write (bench : Bench) (id : Nat) (g : γ) : Performed γ :=
  match bench.workload.record? g with
  | none => ⟨.error .cutShort, bench, g⟩
  | some (record, g) =>
      let (result, store) := bench.store.write (bench.workload.key id) record
      ⟨(result.map fun _ => true).mapError .reported, { bench with store }, g⟩

def insert (bench : Bench) (g : γ) : Performed γ :=
  let (id, workload) := bench.workload.claim
  { bench with workload }.write id g

@[inline] def withExisting (bench : Bench) (g : γ)
    (act : Nat → γ → Performed γ) : Performed γ :=
  match bench.workload.existing? g with
  | (none, g) => ⟨.ok false, bench, g⟩
  | (some id, g) => act id g

def read (bench : Bench) (worker : Nat) (g : γ) : Performed γ :=
  bench.withExisting g fun id g =>
    let (names, g) := bench.workload.projection g
    let (result, store) :=
      bench.store.read worker (bench.workload.key id) names
    ⟨(result.map Option.isSome).mapError .reported, { bench with store }, g⟩

def scan (bench : Bench) (worker : Nat) (g : γ) : Performed γ :=
  bench.withExisting g fun id g =>
    let (count, g) := bench.workload.scanLength g
    let (names, g) := bench.workload.projection g
    let (result, store) :=
      bench.store.scan worker (bench.workload.key id) count names
    ⟨result.map fun records => !records.isEmpty, { bench with store }, g⟩

/-- Records are replaced whole. -/
def update (bench : Bench) (g : γ) : Performed γ :=
  bench.withExisting g fun id g => bench.write id g

def delete (bench : Bench) (g : γ) : Performed γ :=
  bench.withExisting g fun id g =>
    let (result, store) := bench.store.delete (bench.workload.key id)
    ⟨result.mapError .reported, { bench with store }, g⟩

def perform (bench : Bench) (worker : Nat) (operation : Operation)
    (g : γ) : Performed γ :=
  match operation with
  | .read => bench.read worker g
  | .update => bench.update g
  | .scan => bench.scan worker g
  | .insert => bench.insert g
  | .delete => bench.delete g

end Bench

end TieredCache
