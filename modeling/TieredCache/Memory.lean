/-!
# Memory for lists

The items of a list lie in one piece of memory, whose bytes a signed word counts.
Who asks at once for the memory of a longer list is cut short: there is no error
to report, and nothing that was to follow is done.
-/

namespace TieredCache.Memory

/-- A piece of memory has fewer bytes than this. -/
def limit : Nat := UInt64.size / 2

/-- What a list takes as an item of another: an address, a length, a capacity. -/
def listSize : Nat := 24

def fieldSize : Nat := 2 * listSize

/-- Whether one piece of memory can hold so many items of a size. -/
def holds (count size : Nat) : Bool := count * size < limit

theorem holds_iff {count size : Nat} :
    holds count size = true ↔ count * size < limit :=
  decide_eq_true_iff

end TieredCache.Memory
