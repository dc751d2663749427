import TieredCache.Bytes

/-!
# What the engine counts

Every call adds to counters that all pools share.  An entry that leaves RAM is
either demoted into the non-volatile tier or dropped for lack of space there.
-/

namespace TieredCache

inductive Departure where
  | demoted (key : Bytes) (size : Nat)
  | dropped (key : Bytes)
  deriving DecidableEq, Repr

structure Counters where
  lookups : Nat := 0
  ramHits : Nat := 0
  nvmLookups : Nat := 0
  nvmHits : Nat := 0
  nvmBytesWritten : Nat := 0
  nvmBytesRead : Nat := 0
  nvmEvictions : Nat := 0
  ramEvictions : Nat := 0
  deriving DecidableEq, Repr

namespace Counters

def countLookup (counters : Counters) : Counters :=
  { counters with lookups := counters.lookups + 1 }

def countRamHit (counters : Counters) : Counters :=
  { counters with ramHits := counters.ramHits + 1 }

def countNvmMiss (counters : Counters) : Counters :=
  { counters with nvmLookups := counters.nvmLookups + 1 }

def countNvmHit (counters : Counters) (valueBytes : Nat) : Counters :=
  { counters with
    nvmLookups := counters.nvmLookups + 1
    nvmHits := counters.nvmHits + 1
    nvmBytesRead := counters.nvmBytesRead + valueBytes }

/-- A demotion counts as an eviction from RAM and by its size, a drop as an
eviction from the non-volatile tier. -/
def countDeparture (counters : Counters) : Departure → Counters
  | .demoted _ size =>
      { counters with
        ramEvictions := counters.ramEvictions + 1
        nvmBytesWritten := counters.nvmBytesWritten + size }
  | .dropped _ => { counters with nvmEvictions := counters.nvmEvictions + 1 }

def countDepartures (counters : Counters) (departures : List Departure) :
    Counters :=
  departures.foldl countDeparture counters

end Counters

/-! ## Snapshots -/

def nvmBytesWrittenName : String := "nvm_bytes_written"
def nvmBytesReadName : String := "nvm_bytes_read"
def nvmEvictionsName : String := "nvm_evictions"
def ramEvictionsName : String := "ram_evictions"

/-- Counters as they are reported: four counts, and others by name. -/
structure Snapshot where
  lookups : UInt64
  ramHits : UInt64
  nvmLookups : UInt64
  nvmHits : UInt64
  named : List (String × Float)

/-- The words in which counters are reported wrap. -/
def Counters.snapshot (counters : Counters) : Snapshot :=
  let real (n : Nat) : Float := (UInt64.ofNat n).toFloat
  { lookups := UInt64.ofNat counters.lookups
    ramHits := UInt64.ofNat counters.ramHits
    nvmLookups := UInt64.ofNat counters.nvmLookups
    nvmHits := UInt64.ofNat counters.nvmHits
    named :=
      [(nvmBytesWrittenName, real counters.nvmBytesWritten),
       (nvmBytesReadName, real counters.nvmBytesRead),
       (nvmEvictionsName, real counters.nvmEvictions),
       (ramEvictionsName, real counters.ramEvictions)] }

namespace Snapshot

def counter (snapshot : Snapshot) (name : String) : Float :=
  (snapshot.named.lookup name).getD 0.0

def ramMissRate (snapshot : Snapshot) : Float :=
  if snapshot.lookups = 0 then 0.0
  else
    let misses :=
      if snapshot.ramHits ≤ snapshot.lookups then
        snapshot.lookups - snapshot.ramHits
      else 0
    misses.toFloat * 100.0 / snapshot.lookups.toFloat

def nvmHitRatio (snapshot : Snapshot) : Float :=
  if snapshot.nvmLookups = 0 then 0.0
  else snapshot.nvmHits.toFloat * 100.0 / snapshot.nvmLookups.toFloat

end Snapshot

/-! ## Samples -/

structure Sample where
  lookups : UInt64
  ramHitRatio : Float
  nvmHitRatio : Float
  nvmBytesWritten : Float
  nvmBytesRead : Float

/-- Without lookups there were no hits either. -/
def Snapshot.sample (snapshot : Snapshot) : Sample :=
  { lookups := snapshot.lookups
    ramHitRatio :=
      if snapshot.lookups = 0 then 0.0 else 100.0 - snapshot.ramMissRate
    nvmHitRatio := snapshot.nvmHitRatio
    nvmBytesWritten := snapshot.counter nvmBytesWrittenName
    nvmBytesRead := snapshot.counter nvmBytesReadName }

end TieredCache
