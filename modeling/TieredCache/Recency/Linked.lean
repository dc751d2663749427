import Std.Data.HashMap

/-!
# Recently used entries in linked slots

A bounded cache whose operations take constant time.  Entries lie in numbered
slots, each linked to the next newer and the next older one; an index finds the
slot of a key, and slots left empty are used again before new ones are added.
-/

namespace TieredCache

structure LinkedEntry (κ ν : Type) where
  key : κ
  value : ν
  weight : Nat
  newer : Option Nat
  older : Option Nat
  deriving Repr

structure LinkedCache (κ ν : Type) [BEq κ] [Hashable κ] where
  capacity : Nat
  weight : Nat
  slots : Array (Option (LinkedEntry κ ν))
  vacant : List Nat
  index : Std.HashMap κ Nat
  newest : Option Nat
  oldest : Option Nat

namespace LinkedCache

variable {κ ν : Type} [BEq κ] [Hashable κ]

def empty (capacity : Nat) : LinkedCache κ ν :=
  { capacity, weight := 0, slots := #[], vacant := [], index := ∅
    newest := none, oldest := none }

/-! ## What the cache holds -/

def size (cache : LinkedCache κ ν) : Nat := cache.index.size

def isEmpty (cache : LinkedCache κ ν) : Bool := cache.index.isEmpty

def entryAt? (cache : LinkedCache κ ν) (slot : Nat) :
    Option (LinkedEntry κ ν) :=
  cache.slots[slot]?.join

/-! ## Links -/

def modifyEntry (cache : LinkedCache κ ν) (slot : Nat)
    (change : LinkedEntry κ ν → LinkedEntry κ ν) : LinkedCache κ ν :=
  { cache with slots := cache.slots.modify slot (Option.map change) }

/-- Sets the newer neighbour of a slot.  Where there is no slot, that neighbour
has nothing older behind it and is the oldest of all. -/
def setNewer (cache : LinkedCache κ ν) (slot newer : Option Nat) :
    LinkedCache κ ν :=
  match slot with
  | some slot => cache.modifyEntry slot fun entry => { entry with newer }
  | none => { cache with oldest := newer }

/-- Sets the older neighbour of a slot.  Where there is no slot, that neighbour
has nothing newer in front of it and is the newest of all. -/
def setOlder (cache : LinkedCache κ ν) (slot older : Option Nat) :
    LinkedCache κ ν :=
  match slot with
  | some slot => cache.modifyEntry slot fun entry => { entry with older }
  | none => { cache with newest := older }

def linkNewest (cache : LinkedCache κ ν) (slot : Nat) : LinkedCache κ ν :=
  let previous := cache.newest
  let cache := cache.modifyEntry slot fun entry =>
    { entry with newer := none, older := previous }
  { cache.setNewer previous (some slot) with newest := some slot }

def unlink (cache : LinkedCache κ ν) (slot : Nat) : LinkedCache κ ν :=
  match cache.entryAt? slot with
  | none => cache
  | some entry =>
      (cache.setOlder entry.newer entry.older).setNewer entry.older entry.newer

def touch (cache : LinkedCache κ ν) (slot : Nat) : LinkedCache κ ν :=
  if cache.newest = some slot then cache
  else (cache.unlink slot).linkNewest slot

def detach (cache : LinkedCache κ ν) (slot : Nat) :
    Option (LinkedEntry κ ν) × LinkedCache κ ν :=
  let cache := cache.unlink slot
  match cache.entryAt? slot with
  | none => (none, cache)
  | some entry =>
      (some entry,
        { cache with
          slots := cache.slots.setIfInBounds slot none
          vacant := slot :: cache.vacant
          weight := cache.weight - entry.weight })

/-! ## Operations -/

def get (cache : LinkedCache κ ν) (key : κ) : Option ν × LinkedCache κ ν :=
  match cache.index[key]? with
  | none => (none, cache)
  | some slot =>
      let cache := cache.touch slot
      ((cache.entryAt? slot).map LinkedEntry.value, cache)

def remove (cache : LinkedCache κ ν) (key : κ) : Option ν × LinkedCache κ ν :=
  match cache.index[key]? with
  | none => (none, cache)
  | some slot =>
      let (entry, cache) :=
        { cache with index := cache.index.erase key }.detach slot
      (entry.map LinkedEntry.value, cache)

def insertNew (cache : LinkedCache κ ν) (key : κ) (value : ν) (weight : Nat) :
    LinkedCache κ ν :=
  let entry := some ⟨key, value, weight, none, none⟩
  let (slot, cache) :=
    match cache.vacant with
    | slot :: vacant =>
        (slot, { cache with
          slots := cache.slots.setIfInBounds slot entry, vacant })
    | [] =>
        (cache.slots.size, { cache with slots := cache.slots.push entry })
  let cache := cache.linkNewest slot
  { cache with
    index := cache.index.insert key slot
    weight := cache.weight + weight }

def overwrite (cache : LinkedCache κ ν) (slot : Nat) (value : ν)
    (weight : Nat) : LinkedCache κ ν :=
  match cache.entryAt? slot with
  | none => cache.touch slot
  | some old =>
      let cache := cache.modifyEntry slot fun entry =>
        { entry with value, weight }
      { cache with weight := cache.weight - old.weight + weight }.touch slot

def evictOldest (cache : LinkedCache κ ν) :
    Option (κ × ν) × LinkedCache κ ν :=
  match cache.oldest with
  | none => (none, cache)
  | some slot =>
      match cache.detach slot with
      | (none, cache) => (none, cache)
      | (some entry, cache) =>
          (some (entry.key, entry.value),
            { cache with index := cache.index.erase entry.key })

/-- Evicts at most `rounds` entries while the weight exceeds the capacity; the
first component lists them after those already gone, which are in reverse. -/
def evictExcess (gone : List (κ × ν)) :
    Nat → LinkedCache κ ν → List (κ × ν) × LinkedCache κ ν
  | 0, cache => (gone.reverse, cache)
  | rounds + 1, cache =>
      if cache.weight ≤ cache.capacity then (gone.reverse, cache)
      else
        match cache.evictOldest with
        | (none, cache) => (gone.reverse, cache)
        | (some evicted, cache) => evictExcess (evicted :: gone) rounds cache

/-- Stores or replaces an entry and lists what had to be evicted, the least
recently used first.  An entry heavier than the whole cache is handed back at
once, and its key is left without one. -/
def put (cache : LinkedCache κ ν) (key : κ) (value : ν) (weight : Nat) :
    List (κ × ν) × LinkedCache κ ν :=
  if cache.capacity < weight then ([(key, value)], (cache.remove key).2)
  else
    let cache :=
      match cache.index[key]? with
      | some slot => cache.overwrite slot value weight
      | none => cache.insertNew key value weight
    evictExcess [] cache.size cache

end LinkedCache

end TieredCache
