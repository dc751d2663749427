import TieredCache.Engine.Nvm
import TieredCache.Recency.Linked

/-!
# Pools

A pool keeps recently used entries in RAM and demotes those that no longer fit
into its non-volatile tier.  A key has at most one entry in a pool: storing one
removes the copy below RAM first, and finding one below RAM moves it up.
-/

namespace TieredCache

structure Pool where
  ramBytes : Nat
  ram : LinkedCache Bytes Bytes
  nvm : NvmTier

inductive Lookup where
  | inRam (value : Bytes)
  | inNvm (value : Bytes)
  | missing
  deriving DecidableEq, Repr

def Lookup.value? : Lookup → Option Bytes
  | .inRam value => some value
  | .inNvm value => some value
  | .missing => none

def Counters.countFind (counters : Counters) (lookup : Lookup)
    (departures : List Departure) : Counters :=
  match lookup with
  | .inRam _ => counters.countLookup.countRamHit
  | .inNvm value =>
      (counters.countLookup.countNvmHit value.length).countDepartures departures
  | .missing => counters.countLookup.countNvmMiss

namespace Pool

def empty (ramBytes nvmBytes : Nat) : Pool :=
  ⟨ramBytes, LinkedCache.empty ramBytes, NvmTier.empty nvmBytes⟩

/-- Puts an entry into RAM and demotes what it displaces. -/
def raise (pool : Pool) (key value : Bytes) : List Departure × Pool :=
  let (evicted, ram) := pool.ram.put key value (entrySize key value)
  let (nvm, departures) := pool.nvm.receive evicted
  (departures, { pool with ram, nvm })

def store (pool : Pool) (key value : Bytes) : List Departure × Pool :=
  let (_, nvm) := pool.nvm.take key
  { pool with nvm }.raise key value

def find (pool : Pool) (key : Bytes) : Lookup × List Departure × Pool :=
  match pool.ram.get key with
  | (some value, ram) => (.inRam value, [], { pool with ram })
  | (none, ram) =>
      match pool.nvm.take key with
      | (none, nvm) => (.missing, [], { pool with ram, nvm })
      | (some value, nvm) =>
          let (departures, pool) := { pool with ram, nvm }.raise key value
          (.inNvm value, departures, pool)

def remove (pool : Pool) (key : Bytes) : Bool × Pool :=
  let (fromRam, ram) := pool.ram.remove key
  let (fromNvm, nvm) := pool.nvm.take key
  (fromRam.isSome || fromNvm.isSome, { pool with ram, nvm })

end Pool

end TieredCache
