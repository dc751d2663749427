/-!
# Weighted entries in order of use

The plain picture of a bounded cache: entries with weights, the one used last
first, at most one for each key.  Using an entry moves it to the front; entries
leave at the back, and only while the total weight exceeds the capacity.
-/

namespace TieredCache

structure WeightedEntry (κ ν : Type) where
  key : κ
  value : ν
  weight : Nat
  deriving DecidableEq, Repr

/-- A capacity and the entries, the most recently used first. -/
structure RecencyOrder (κ ν : Type) where
  capacity : Nat
  entries : List (WeightedEntry κ ν)
  deriving Repr

namespace RecencyOrder

variable {κ ν : Type} [DecidableEq κ]

def empty (capacity : Nat) : RecencyOrder κ ν := ⟨capacity, []⟩

def totalWeight : List (WeightedEntry κ ν) → Nat
  | [] => 0
  | entry :: rest => entry.weight + totalWeight rest

def weight (order : RecencyOrder κ ν) : Nat := totalWeight order.entries

def find? (order : RecencyOrder κ ν) (key : κ) : Option (WeightedEntry κ ν) :=
  order.entries.find? fun entry => entry.key = key

def others (order : RecencyOrder κ ν) (key : κ) : List (WeightedEntry κ ν) :=
  order.entries.filter fun entry => entry.key ≠ key

def get (order : RecencyOrder κ ν) (key : κ) :
    Option ν × RecencyOrder κ ν :=
  match order.find? key with
  | none => (none, order)
  | some entry =>
      (some entry.value, { order with entries := entry :: order.others key })

def remove (order : RecencyOrder κ ν) (key : κ) :
    Option ν × RecencyOrder κ ν :=
  ((order.find? key).map WeightedEntry.value,
    { order with entries := order.others key })

/-- Removes entries from the reverse of the list while the total weight exceeds
the capacity; the first component lists what was removed, in that order. -/
def shed (capacity total : Nat) :
    List (WeightedEntry κ ν) → List (κ × ν) × List (WeightedEntry κ ν)
  | [] => ([], [])
  | last :: rest =>
      if capacity < total then
        let (gone, kept) := shed capacity (total - last.weight) rest
        ((last.key, last.value) :: gone, kept)
      else ([], last :: rest)

/-- Stores an entry at the front and sheds from the back.  An entry heavier than
the whole capacity is not stored; it takes the place of its key all the same. -/
def put (order : RecencyOrder κ ν) (key : κ) (value : ν) (weight : Nat) :
    List (κ × ν) × RecencyOrder κ ν :=
  if order.capacity < weight then
    ([(key, value)], { order with entries := order.others key })
  else
    let entries := ⟨key, value, weight⟩ :: order.others key
    let (gone, kept) :=
      shed order.capacity (totalWeight entries) entries.reverse
    (gone, { order with entries := kept.reverse })

end RecencyOrder

end TieredCache
