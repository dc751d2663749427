/-!
# The non-volatile hierarchy

Two devices stand behind the RAM of a cache: a fast one and a large one.  A
layout says how they work together, and with it how many bytes the cache can
address.
-/

namespace TieredCache

def kib : Nat := 1024
def mib : Nat := 1024 * kib
def gib : Nat := 1024 * mib

def byteLimit : Nat := UInt64.size

/-! ## Modes -/

inductive TierMode where
  | striping
  | tiering
  | mostAggressive
  | caching
  deriving DecidableEq, Repr

namespace TierMode

def name : TierMode → String
  | .striping => "striping"
  | .tiering => "tiering"
  | .mostAggressive => "most"
  | .caching => "caching"

def ofName? : String → Option TierMode
  | "striping" => some .striping
  | "tiering" => some .tiering
  | "most" => some .mostAggressive
  | "caching" => some .caching
  | _ => none

theorem ofName?_eq_some_iff {text : String} {mode : TierMode} :
    ofName? text = some mode ↔ text = mode.name := by
  constructor
  · unfold ofName?
    split <;> intro h <;> cases h <;> rfl
  · rintro rfl
    cases mode <;> rfl

end TierMode

/-- When a write to the fast device counts as done: at once, or after both
devices have it. -/
inductive WriteMode where
  | writeBack
  | writeThrough
  deriving DecidableEq, Repr

def WriteMode.ofName? : String → Option WriteMode
  | "wb" | "write-back" => some .writeBack
  | "wt" | "write-through" => some .writeThrough
  | _ => none

/-! ## Devices and layouts -/

structure Device where
  path : String
  capacity : Nat
  deriving DecidableEq, Repr

/-- How regions move between the devices.  A tuning step, where there is one,
lets the hot region grow. -/
structure Migration where
  rate : Nat
  hotThreshold : Nat
  coolingThreshold : Nat
  hotRegionSize : Nat
  offloadRatioMin : Nat
  offloadRatioMax : Nat
  pageSize : Nat
  tuningStep : Option Nat
  deriving DecidableEq, Repr

inductive Layout where
  | striping
  | tiering (migration : Migration)
  | caching (writeMode : WriteMode) (pageSize : Nat)
  deriving DecidableEq, Repr

/-- The part of each device that holds small items by hash. -/
structure SmallItems where
  sizePercent : Nat
  bucketSize : Nat := 4096
  bloomFilterBits : Nat := 8
  itemMaxSize : Nat := 2048
  deriving DecidableEq, Repr

structure BlockSettings where
  blockSize : Nat := 4096
  regionSize : Nat := 2 * mib
  inMemoryBuffers : Nat := 128
  orderingShards : Nat := 21
  cleanRegions : Nat := 1
  maxConcurrentInserts : Nat := 1000000
  maxParcelMemoryMb : Nat := 1024
  deviceMaxWriteSize : Nat := mib
  dataChecksum : Bool := false
  fastNegativeLookups : Bool := true
  admissionMinTtl : Nat := 0
  deriving DecidableEq, Repr

structure Hierarchy where
  layout : Layout
  fast : Device
  large : Device
  readerThreads : Nat
  writerThreads : Nat
  smallItems : Option SmallItems
  block : BlockSettings := {}
  deriving DecidableEq, Repr

namespace Hierarchy

def mode (hierarchy : Hierarchy) : TierMode :=
  match hierarchy.layout with
  | .striping => .striping
  | .tiering migration =>
      if migration.tuningStep.isSome then .mostAggressive else .tiering
  | .caching .. => .caching

def paths (hierarchy : Hierarchy) : List String :=
  [hierarchy.large.path, hierarchy.fast.path]

/-- The bytes a cache can address.  In caching the fast device only repeats what
the large one holds; otherwise both count, up to the greatest byte count. -/
def logicalCapacity (hierarchy : Hierarchy) : Nat :=
  match hierarchy.layout with
  | .caching .. => hierarchy.large.capacity
  | _ => min (hierarchy.fast.capacity + hierarchy.large.capacity) (byteLimit - 1)

def migrationRate? (hierarchy : Hierarchy) : Option Nat :=
  match hierarchy.layout with
  | .tiering migration => some migration.rate
  | _ => none

end Hierarchy

end TieredCache
