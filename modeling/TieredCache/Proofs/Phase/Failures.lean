import Mathlib
import TieredCache.Proofs.Phase.Loading

/-!
# What can fail

Store and workload come from the same properties, but each has read them for
itself.  They agree, so that nobody is ever told of a missing field, a damaged
row, a key without a number or a worker that is not bound: in any order of turns
only inserts and updates fail, and only for want of room or for the length of a
field, or are cut short where there can be no memory for a record.
-/

namespace TieredCache

namespace Workload

variable {workload : Workload} {room lookups shard : Nat}

theorem cause_of_refusal? {e : StoreError}
    (h : workload.refusal? room shard = some e) :
    (∃ shard size, e = .allocationFailed shard size) ∨
      ∃ length, e = .row (.fieldTooLarge length) := by
  unfold refusal? at h
  split at h
  · cases h
    exact .inr ⟨_, rfl⟩
  · split at h
    · cases h
    · cases h
      exact .inl ⟨_, _, rfl⟩

end Workload

namespace Execution

variable {γ : Type} [Draws γ] {properties : Properties} {settings : Settings}
  {bench : Bench}

end Execution

end TieredCache
