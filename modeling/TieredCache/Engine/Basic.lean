import TieredCache.Engine.Pool
import TieredCache.Hierarchy

/-!
# The engine

Pools share one RAM budget, and each gets a part of the hierarchy's logical
capacity in proportion to its part of the RAM.  A pool is known by the number of
pools before it.  Operations on items return the next engine, also when they
fail.
-/

namespace TieredCache

inductive EngineError where
  | poolTooLarge (name : String) (requested available : Nat)
  | unknownPool (pool : Nat)
  | tooManyPools (limit : Nat)
  | invalidConfig (reason : String)
  deriving DecidableEq, Repr

def EngineError.message : EngineError → String
  | .poolTooLarge name requested available =>
      s!"pool {name} needs {requested} bytes but only {available} remain"
  | .unknownPool pool => s!"unknown pool id {pool}"
  | .tooManyPools limit => s!"pool limit of {limit} reached"
  | .invalidConfig reason => s!"invalid engine config: {reason}"

structure WriteHandle where
  pool : Nat
  key : Bytes
  memory : Bytes
  deriving DecidableEq, Repr

/-- Writes bytes into the buffer from an offset on; the buffer keeps its size. -/
def WriteHandle.write (handle : WriteHandle) (data : Bytes) (offset : Nat := 0) :
    WriteHandle :=
  { handle with
    memory :=
      (handle.memory.take offset ++ data ++
        handle.memory.drop (offset + data.length)).take handle.memory.length }

structure Engine where
  ramBytes : Nat
  reserved : Nat
  hierarchy : Hierarchy
  pools : Array Pool
  counters : Counters

namespace Engine

def maxPools : Nat := 64

def maxItemSize : Nat := 4 * mib

def maxKeySize : Nat := 255

/-! ## Setting up -/

def create (ramBytes : Nat) (hierarchy : Hierarchy) :
    Except EngineError Engine :=
  if ramBytes = 0 then .error (.invalidConfig "RAM size must be positive")
  else .ok
    { ramBytes, reserved := 0, hierarchy, pools := #[], counters := {} }

def available (engine : Engine) : Nat := engine.ramBytes - engine.reserved

def nvmShare (engine : Engine) (bytes : Nat) : Nat :=
  engine.hierarchy.logicalCapacity * bytes / engine.ramBytes

def addPool (engine : Engine) (name : String) (bytes : Nat) :
    Except EngineError (Nat × Engine) :=
  if maxPools ≤ engine.pools.size then .error (.tooManyPools maxPools)
  else if bytes = 0 ∨ engine.available < bytes then
    .error (.poolTooLarge name bytes engine.available)
  else .ok
    (engine.pools.size,
      { engine with
        pools := engine.pools.push (Pool.empty bytes (engine.nvmShare bytes))
        reserved := engine.reserved + bytes })

/-! ## Items -/

def poolAt (engine : Engine) (id : Nat) : Except EngineError Pool :=
  match engine.pools[id]? with
  | some pool => .ok pool
  | none => .error (.unknownPool id)

/-- Takes a pool out of the engine, with an empty one left in its place. -/
def takePool (engine : Engine) (id : Nat) (h : id < engine.pools.size) :
    Pool × Engine :=
  (engine.pools[id],
    { engine with
      pools := engine.pools.setIfInBounds id (Pool.empty 0 0) })

def setPool (engine : Engine) (id : Nat) (pool : Pool) (counters : Counters) :
    Engine :=
  { engine with pools := engine.pools.setIfInBounds id pool, counters }

/-- Nothing stays of what was left in place of a pool. -/
theorem setPool_takePool (engine : Engine) (id : Nat)
    (h : id < engine.pools.size) (pool : Pool) (counters : Counters) :
    (engine.takePool id h).2.setPool id pool counters =
      engine.setPool id pool counters := by
  simp only [takePool, setPool, Array.setIfInBounds_setIfInBounds]

def admits (pool : Pool) (key : Bytes) (size : Nat) : Bool :=
  key.length ≤ maxKeySize && size ≤ maxItemSize &&
    key.length + size ≤ pool.ramBytes

def allocate (engine : Engine) (id : Nat) (key : Bytes) (size : Nat) :
    Except EngineError (Option WriteHandle) :=
  match engine.poolAt id with
  | .error e => .error e
  | .ok pool =>
      if admits pool key size then
        .ok (some ⟨id, key, List.replicate size 0⟩)
      else .ok none

/-- Stores a buffer as the item of its key, in place of any older one. -/
def install (engine : Engine) (handle : WriteHandle) :
    Except EngineError Unit × Engine :=
  if h : handle.pool < engine.pools.size then
    let (pool, engine) := engine.takePool handle.pool h
    let (departures, pool) := pool.store handle.key handle.memory
    (.ok (), engine.setPool handle.pool pool
      (engine.counters.countDepartures departures))
  else (.error (.unknownPool handle.pool), engine)

def find (engine : Engine) (id : Nat) (key : Bytes) :
    Except EngineError (Option Bytes) × Engine :=
  if h : id < engine.pools.size then
    let (pool, engine) := engine.takePool id h
    let (lookup, departures, pool) := pool.find key
    (.ok lookup.value?, engine.setPool id pool
      (engine.counters.countFind lookup departures))
  else (.error (.unknownPool id), engine)

def remove (engine : Engine) (id : Nat) (key : Bytes) :
    Except EngineError Bool × Engine :=
  if h : id < engine.pools.size then
    let (pool, engine) := engine.takePool id h
    let (removed, pool) := pool.remove key
    (.ok removed, engine.setPool id pool engine.counters)
  else (.error (.unknownPool id), engine)

/-! ## Observations -/

def poolSizes (engine : Engine) : List (Nat × Nat) :=
  engine.pools.toList.map fun pool => (pool.ram.size, pool.nvm.items.size)

def ramCount (engine : Engine) (id : Nat) : Nat :=
  match engine.pools[id]? with
  | some pool => pool.ram.size
  | none => 0

def nvmCount (engine : Engine) (id : Nat) : Nat :=
  match engine.pools[id]? with
  | some pool => pool.nvm.items.size
  | none => 0

def nvmCapacity (engine : Engine) (id : Nat) : Nat :=
  match engine.pools[id]? with
  | some pool => pool.nvm.capacity
  | none => 0

end Engine

end TieredCache
