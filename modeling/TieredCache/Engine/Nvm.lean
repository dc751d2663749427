import Std.Data.HashMap
import TieredCache.Engine.Counters

/-!
# The non-volatile side of a pool

A map from keys to values with a bound on the bytes of both together.  It
admits what leaves RAM while there is room and gives up what is wanted back.
-/

namespace TieredCache

def entrySize (key value : Bytes) : Nat := key.length + value.length

structure NvmTier where
  items : Std.HashMap Bytes Bytes
  bytes : Nat
  capacity : Nat

namespace NvmTier

def empty (capacity : Nat) : NvmTier := ⟨∅, 0, capacity⟩

/-- The bytes held once an entry has taken the place of any older one for its
key. -/
def bytesWith (tier : NvmTier) (key value : Bytes) : Nat :=
  let replaced :=
    match tier.items[key]? with
    | some old => entrySize key old
    | none => 0
  tier.bytes - replaced + entrySize key value

def insert (tier : NvmTier) (key value : Bytes) : NvmTier :=
  let bytes := tier.bytesWith key value
  { tier with items := tier.items.insert key value, bytes }

def take (tier : NvmTier) (key : Bytes) : Option Bytes × NvmTier :=
  match tier.items[key]? with
  | none => (none, tier)
  | some value =>
      (some value,
        { tier with
          items := tier.items.erase key
          bytes := tier.bytes - entrySize key value })

/-- One entry that leaves RAM, with the departures before it in reverse. -/
def receiveOne (state : NvmTier × List Departure) (entry : Bytes × Bytes) :
    NvmTier × List Departure :=
  let (tier, departures) := state
  let (key, value) := entry
  if tier.bytesWith key value ≤ tier.capacity then
    (tier.insert key value, .demoted key (entrySize key value) :: departures)
  else (tier, .dropped key :: departures)

def receive (tier : NvmTier) (evicted : List (Bytes × Bytes)) :
    NvmTier × List Departure :=
  let (tier, departures) := evicted.foldl receiveOne (tier, [])
  (tier, departures.reverse)

end NvmTier

end TieredCache
