import Mathlib
import TieredCache.Proofs.Recency.Refinement

/-!
# The entries of a cache

A cache has the entries in its occupied slots, in whatever order the slots are.
Links apart, they are the entries of the order of use that the cache keeps.
-/

namespace TieredCache

variable {κ ν : Type}

def LinkedEntry.plain (entry : LinkedEntry κ ν) : WeightedEntry κ ν :=
  ⟨entry.key, entry.value, entry.weight⟩

namespace LinkedCache

variable [BEq κ] [Hashable κ] {cache : LinkedCache κ ν} {path : List Nat}
  {order : RecencyOrder κ ν}

def entries (cache : LinkedCache κ ν) : List (LinkedEntry κ ν) :=
  cache.slots.toList.filterMap id

theorem entries_eq (cache : LinkedCache κ ν) :
    cache.entries =
      (List.range cache.slots.size).filterMap cache.entryAt? := by
  have hslots : cache.slots.toList =
      (List.range cache.slots.size).map cache.entryAt? := by
    apply List.ext_getElem
    · simp
    · intro slot hslot _
      simp only [Array.length_toList] at hslot
      simp [entryAt?, hslot]
  rw [entries, hslots, List.filterMap_map]
  rfl

theorem Filled.path_perm (h : cache.Filled path) :
    path.Perm ((List.range cache.slots.size).filter
      fun slot => (cache.entryAt? slot).isSome) := by
  refine (List.perm_ext_iff_of_nodup h.threaded.nodup
    (List.nodup_range.filter _)).2 ?_
  intro slot
  rw [List.mem_filter, List.mem_range]
  constructor
  · intro hslot
    have hoccupied := h.threaded.isSome hslot
    exact ⟨lt_slotCount_of_isSome hoccupied, hoccupied⟩
  · rintro ⟨-, hoccupied⟩
    exact h.occupied slot (isSome_held?.trans hoccupied)

theorem Filled.entries_perm (h : cache.Filled path) :
    cache.entries.Perm (path.filterMap cache.entryAt?) := by
  have hoccupied := h.path_perm.symm.filterMap cache.entryAt?
  rw [List.filterMap_filter] at hoccupied
  rw [entries_eq]
  refine (List.Perm.of_eq (List.filterMap_congr fun slot _ => ?_)).trans
    hoccupied
  cases cache.entryAt? slot <;> rfl

theorem Keeps.entries_perm (h : cache.Keeps order) :
    (cache.entries.map LinkedEntry.plain).Perm order.entries := by
  obtain ⟨path, hpath, rfl⟩ := h
  have hentries := hpath.filled.entries_perm.map LinkedEntry.plain
  rw [List.map_filterMap] at hentries
  exact hentries

end LinkedCache

end TieredCache
