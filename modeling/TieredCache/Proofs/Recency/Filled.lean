import Mathlib
import TieredCache.Proofs.Recency.Links
import TieredCache.Proofs.Recency.Order

/-!
# Occupied slots, vacant slots and the index

The slots of the path are the occupied ones, all other slots are vacant, and the
index leads from each stored key to its slot.  Emptying and filling a slot keep
this for the path without it and with it.
-/

namespace TieredCache.LinkedCache

open RecencyOrder (totalWeight)

variable {κ ν : Type} [BEq κ] [Hashable κ]
  {cache cache' : LinkedCache κ ν} {path before after : List Nat} {slot : Nat}

theorem isSome_held? :
    (cache.held? slot).isSome = (cache.entryAt? slot).isSome :=
  Option.isSome_map

/-- The slots of a path hold everything that a cache holds. -/
structure Filled (cache : LinkedCache κ ν) (path : List Nat) : Prop where
  threaded : cache.Threaded path
  occupied : ∀ slot, (cache.held? slot).isSome → slot ∈ path
  vacant_nodup : cache.vacant.Nodup
  mem_vacant : ∀ slot, slot ∈ cache.vacant ↔
    slot < cache.slots.size ∧ cache.held? slot = none
  weight : cache.weight = totalWeight (path.filterMap cache.held?)

/-- The index leads to the slots of a path by the keys that they hold. -/
structure Indexed (cache : LinkedCache κ ν) (path : List Nat) : Prop where
  getElem? : ∀ key slot, cache.index[key]? = some slot ↔
    ∃ entry, cache.held? slot = some entry ∧ entry.key = key
  size : cache.index.size = path.length

theorem filled_empty (capacity : Nat) :
    Filled (empty capacity : LinkedCache κ ν) [] := by
  refine ⟨threaded_empty capacity, fun slot h => ?_, List.nodup_nil,
    fun slot => ?_, rfl⟩
  · simp [held?, entryAt?, empty] at h
  · simp [empty]

theorem indexed_empty [LawfulBEq κ] (capacity : Nat) :
    Indexed (empty capacity : LinkedCache κ ν) [] :=
  ⟨fun key slot => by simp [empty, held?, entryAt?], by simp [empty]⟩

theorem Filled.exists_held (h : Filled cache path) (hslot : slot ∈ path) :
    ∃ entry, cache.held? slot = some entry := by
  have hoccupied := h.threaded.isSome hslot
  rw [← isSome_held?] at hoccupied
  exact Option.isSome_iff_exists.1 hoccupied

theorem Filled.weight_le (h : Filled cache path) {held : WeightedEntry κ ν}
    (hheld : cache.held? slot = some held) : held.weight ≤ cache.weight := by
  have hslot : slot ∈ path := by
    apply h.occupied
    rw [hheld]
    rfl
  have hmem := List.mem_filterMap.2 ⟨slot, hslot, hheld⟩
  rw [h.weight]
  exact RecencyOrder.totalWeight_le_of_sublist (List.singleton_sublist.2 hmem)

/-! ## Emptying a slot -/

theorem join_setIfInBounds {α : Type} {slots : Array (Option α)} {slot : Nat}
    {content : Option α} (h : slot < slots.size ∨ content = none)
    (other : Nat) :
    ((slots.setIfInBounds slot content)[other]?).join =
      if other = slot then content else (slots[other]?).join := by
  rw [Array.getElem?_setIfInBounds]
  by_cases heq : slot = other
  · subst heq
    rw [if_pos rfl, if_pos rfl]
    rcases h with hbound | rfl
    · rw [if_pos hbound]
      rfl
    · split <;> rfl
  · rw [if_neg heq, if_neg (Ne.symm heq)]

theorem join_push {α : Type} (slots : Array (Option α)) (content : Option α)
    (other : Nat) :
    ((slots.push content)[other]?).join =
      if other = slots.size then content else (slots[other]?).join := by
  rw [Array.getElem?_push]
  split <;> rfl

/-- Detaching a slot of the path hands back what it held and leaves the rest of
the path filled as it was. -/
theorem Filled.detach (h : Filled cache (before ++ slot :: after)) :
    ∃ entry cache', cache.detach slot = (some entry, cache') ∧
      cache.held? slot = some ⟨entry.key, entry.value, entry.weight⟩ ∧
      Filled cache' (before ++ after) ∧
      cache'.index = cache.index ∧ cache'.capacity = cache.capacity ∧
      ∀ other, cache'.held? other =
        if other = slot then none else cache.held? other := by
  have hsame := sameHoldings_unlink cache slot
  have hthreaded := h.threaded.unlink
  obtain ⟨held, hheld⟩ :=
    h.exists_held (List.mem_append_right before List.mem_cons_self)
  obtain ⟨entry, hentry, rfl⟩ := Option.map_eq_some_iff.1
    ((hsame.held? slot).trans hheld)
  have hfresh : slot ∉ before ++ after :=
    (List.nodup_middle.1 h.threaded.nodup).notMem
  let emptied : LinkedCache κ ν :=
    { cache.unlink slot with
      slots := (cache.unlink slot).slots.setIfInBounds slot none
      vacant := slot :: (cache.unlink slot).vacant
      weight := (cache.unlink slot).weight - entry.weight }
  have hentryAt? (other : Nat) : emptied.entryAt? other =
      if other = slot then none else (cache.unlink slot).entryAt? other :=
    join_setIfInBounds (.inr rfl) other
  have hheld' (other : Nat) : emptied.held? other =
      if other = slot then none else cache.held? other := by
    rw [held?, hentryAt?, ← hsame.held? other]
    split <;> rfl
  have hrest : (before ++ after).filterMap emptied.held? =
      (before ++ after).filterMap cache.held? := by
    refine List.filterMap_congr fun other ho => ?_
    rw [hheld', if_neg (ne_of_mem_of_not_mem ho hfresh)]
  refine ⟨entry, emptied, ?_, hheld, ⟨?_, ?_, ?_, ?_, ?_⟩, hsame.index,
    hsame.capacity, hheld'⟩
  · simp only [LinkedCache.detach, hentry]
    rfl
  · refine hthreaded.congr rfl rfl fun other ho => ?_
    rw [links?, hentryAt?, if_neg (ne_of_mem_of_not_mem ho hfresh)]
    rfl
  · intro other ho
    rw [hheld'] at ho
    split at ho
    · cases ho
    · rename_i hne
      have hmem := h.occupied other ho
      simp only [List.mem_append, List.mem_cons] at hmem ⊢
      tauto
  · refine List.nodup_cons.2 ⟨fun hmem => ?_, hsame.vacant ▸ h.vacant_nodup⟩
    rw [hsame.vacant, h.mem_vacant, hheld] at hmem
    cases hmem.2
  · intro other
    have hsize : emptied.slots.size = cache.slots.size := by
      simp [emptied, hsame.slotCount]
    have hbound : slot < cache.slots.size := by
      apply lt_slotCount_of_isSome
      rw [← isSome_held?, hheld]
      rfl
    have hvacant : other ∈ emptied.vacant ↔
        other = slot ∨ other ∈ cache.vacant := by
      simp [emptied, hsame.vacant]
    rw [hvacant, hheld', hsize, h.mem_vacant]
    by_cases heq : other = slot
    · simp [heq, hbound]
    · simp [heq]
  · have hweight : emptied.weight = cache.weight - entry.weight := by
      simp [emptied, hsame.weight]
    rw [hweight, hrest, h.weight]
    simp only [List.filterMap_append, List.filterMap_cons, hheld,
      RecencyOrder.totalWeight_append, totalWeight]
    omega

theorem Indexed.erase [LawfulBEq κ]
    (h : Indexed cache (before ++ slot :: after))
    {entry : WeightedEntry κ ν} (hentry : cache.held? slot = some entry)
    (hindex : cache'.index = cache.index.erase entry.key)
    (hheld : ∀ other, cache'.held? other =
      if other = slot then none else cache.held? other) :
    Indexed cache' (before ++ after) := by
  have hmem : cache.index[entry.key]? = some slot :=
    (h.getElem? _ _).2 ⟨entry, hentry, rfl⟩
  refine ⟨fun key other => ?_, ?_⟩
  · rw [hindex, Std.HashMap.getElem?_erase, hheld]
    by_cases hkey : entry.key = key
    · subst hkey
      simp only [BEq.rfl, if_true, reduceCtorEq, false_iff, not_exists]
      rintro found ⟨hfound, heq⟩
      split at hfound
      · cases hfound
      · rename_i hne
        have hother := (h.getElem? _ _).2 ⟨found, hfound, heq⟩
        rw [hmem] at hother
        exact hne (Option.some.inj hother).symm
    · rw [if_neg (by simpa using hkey), h.getElem? key other]
      by_cases heq : other = slot
      · subst heq
        simp [hentry, hkey]
      · rw [if_neg heq]
  · obtain ⟨hpresent, -⟩ := getElem?_eq_some_iff.1 hmem
    rw [hindex, Std.HashMap.size_erase, if_pos hpresent, h.size]
    simp

/-! ## Filling a slot -/

/-- A slot that is filled joins the path at its front.  `placed` is the cache
with the entry in the slot, not linked to others yet. -/
theorem Filled.linkNewest {placed : LinkedCache κ ν} (h : Filled cache path)
    (hfresh : slot ∉ path) {entry : LinkedEntry κ ν}
    (hentryAt? : ∀ other, placed.entryAt? other =
      if other = slot then some entry else cache.entryAt? other)
    (hnewest : placed.newest = cache.newest)
    (holdest : placed.oldest = cache.oldest)
    (hvacant_nodup : placed.vacant.Nodup)
    (hvacant : ∀ other, other ∈ placed.vacant ↔
      other < placed.slots.size ∧ placed.held? other = none)
    (hweight : placed.weight = cache.weight + entry.weight) :
    Filled (placed.linkNewest slot) (slot :: path) := by
  have hsame := sameHoldings_linkNewest placed slot
  have hslot : placed.held? slot =
      some ⟨entry.key, entry.value, entry.weight⟩ := by
    rw [held?, hentryAt?, if_pos rfl]
    rfl
  have hheld {other : Nat} (hne : other ≠ slot) :
      placed.held? other = cache.held? other := by
    rw [held?, hentryAt?, if_neg hne]
    rfl
  have hthreaded : placed.Threaded path := by
    refine h.threaded.congr hnewest holdest fun other ho => ?_
    rw [links?, hentryAt?, if_neg (ne_of_mem_of_not_mem ho hfresh)]
    rfl
  refine ⟨hthreaded.linkNewest hfresh ?_, fun other ho => ?_, ?_,
    fun other => ?_, ?_⟩
  · rw [hentryAt?, if_pos rfl]
    rfl
  · rw [hsame.held?] at ho
    by_cases heq : other = slot
    · exact List.mem_cons.2 (.inl heq)
    · rw [hheld heq] at ho
      exact List.mem_cons_of_mem _ (h.occupied other ho)
  · rw [hsame.vacant]
    exact hvacant_nodup
  · rw [hsame.vacant, hsame.slotCount, hsame.held?, hvacant]
  · have hrest : path.filterMap (placed.linkNewest slot).held? =
        path.filterMap cache.held? := by
      refine List.filterMap_congr fun other ho => ?_
      rw [hsame.held?, hheld (ne_of_mem_of_not_mem ho hfresh)]
    rw [hsame.weight, hweight, List.filterMap_cons, hsame.held?, hslot, hrest,
      h.weight]
    simp only [totalWeight]
    omega

theorem Indexed.insert [LawfulBEq κ] (h : Indexed cache path)
    {entry : WeightedEntry κ ν} (habsent : cache.index[entry.key]? = none)
    (hempty : cache.held? slot = none)
    (hindex : cache'.index = cache.index.insert entry.key slot)
    (hheld : ∀ other, cache'.held? other =
      if other = slot then some entry else cache.held? other) :
    Indexed cache' (slot :: path) := by
  refine ⟨fun key other => ?_, ?_⟩
  · rw [hindex, Std.HashMap.getElem?_insert, hheld]
    by_cases hkey : entry.key = key
    · subst hkey
      rw [if_pos BEq.rfl, Option.some.injEq]
      constructor
      · rintro rfl
        exact ⟨entry, if_pos rfl, rfl⟩
      · rintro ⟨found, hfound, heq⟩
        split at hfound
        · exact Eq.symm ‹_›
        · have hother := (h.getElem? _ _).2 ⟨found, hfound, heq⟩
          rw [habsent] at hother
          cases hother
    · rw [if_neg (by simpa using hkey), h.getElem? key other]
      by_cases heq : other = slot
      · subst heq
        simp [hempty, hkey]
      · rw [if_neg heq]
  · have hpresent : entry.key ∉ cache.index :=
      (getElem?_eq_none_iff _ _).1 habsent
    rw [hindex, Std.HashMap.size_insert, if_neg hpresent, h.size,
      List.length_cons]

end TieredCache.LinkedCache
