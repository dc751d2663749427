import Mathlib
import TieredCache.Proofs.Recency.Checked
import TieredCache.Proofs.Recency.Entries

/-!
# Slots in good order

Older links lead from the newest slot through all occupied ones to the oldest,
and newer links lead back.  The index takes each stored key to the slot that
holds it, and all other slots are vacant.  Calls keep the slots so; none of their
steps is a misstep, and there are never more slots than there have been entries
at once.
-/

namespace TieredCache.LinkedCache

variable {κ ν : Type}

/-! ## Walks along links -/

/-- The slots that links lead through from a first one to the end. -/
inductive Walk (linkOf : Nat → Option (Option Nat)) :
    Option Nat → List Nat → Prop
  | stop : Walk linkOf none []
  | visit {slot : Nat} {next : Option Nat} {rest : List Nat}
      (hlink : linkOf slot = some next) (hrest : Walk linkOf next rest) :
      Walk linkOf (some slot) (slot :: rest)

variable {linksOf : Nat → Option (Option Nat × Option Nat)}
  {newer older : Option Nat} {path : List Nat} {slot : Nat}

theorem Chained.walk_older (h : Chained linksOf newer path none) :
    Walk (fun slot => (linksOf slot).map Prod.snd) path.head? path := by
  induction path generalizing newer with
  | nil => exact .stop
  | cons slot rest ih =>
      obtain ⟨hlinks, hrest⟩ := h
      refine .visit ?_ (ih hrest)
      rw [hlinks, Option.or_none]
      rfl

theorem Chained.walk_newer (h : Chained linksOf none path older) :
    Walk (fun slot => (linksOf slot).map Prod.fst) path.getLast?
      path.reverse := by
  -- From the back, where this walk begins.
  induction path using List.reverseRecOn generalizing older with
  | nil => exact .stop
  | append_singleton front last ih =>
      obtain ⟨hfront, hlinks, -⟩ := chained_append.1 h
      rw [List.getLast?_concat, List.reverse_concat]
      refine .visit ?_ (ih hfront)
      rw [hlinks, Option.or_none]
      rfl

variable [BEq κ] [Hashable κ] {cache : LinkedCache κ ν}
  {order : RecencyOrder κ ν} {capacity : Nat}

def newer? (cache : LinkedCache κ ν) (slot : Nat) : Option (Option Nat) :=
  (cache.entryAt? slot).map LinkedEntry.newer

def older? (cache : LinkedCache κ ν) (slot : Nat) : Option (Option Nat) :=
  (cache.entryAt? slot).map LinkedEntry.older

theorem Threaded.walk_older (h : cache.Threaded path) :
    Walk cache.older? cache.newest path := by
  have hwalk := h.chained.walk_older
  simp only [links?, Option.map_map] at hwalk
  rw [h.newest]
  exact hwalk

theorem Threaded.walk_newer (h : cache.Threaded path) :
    Walk cache.newer? cache.oldest path.reverse := by
  have hwalk := h.chained.walk_newer
  simp only [links?, Option.map_map] at hwalk
  rw [h.oldest]
  exact hwalk

/-! ## Good order -/

def occupied (cache : LinkedCache κ ν) : Set Nat :=
  { slot | (cache.entryAt? slot).isSome }

/-- The slots are in good order along a path from the newest to the oldest. -/
structure Sound (cache : LinkedCache κ ν) (path : List Nat) : Prop where
  older : Walk cache.older? cache.newest path
  newer : Walk cache.newer? cache.oldest path.reverse
  oldest : path.getLast? = cache.oldest
  nodup : path.Nodup
  mem_path : ∀ slot, slot ∈ path ↔ slot ∈ cache.occupied
  newest_eq_none : cache.newest = none ↔ cache.entries = []
  oldest_eq_none : cache.oldest = none ↔ cache.entries = []
  index : Set.BijOn (fun key => cache.index[key]?) { key | key ∈ cache.index }
    (some '' cache.occupied)
  indexed : ∀ key slot, cache.index[key]? = some slot →
    ∃ entry, cache.entryAt? slot = some entry ∧ entry.key = key
  size : cache.size = cache.entries.length
  vacant_nodup : cache.vacant.Nodup
  mem_vacant : ∀ slot, slot ∈ cache.vacant ↔
    slot < cache.slots.size ∧ slot ∉ cache.occupied
  weight : cache.weight = (cache.entries.map LinkedEntry.weight).sum

theorem Filled.mem_path_iff (h : cache.Filled path) (slot : Nat) :
    slot ∈ path ↔ slot ∈ cache.occupied := by
  constructor
  · exact h.threaded.isSome
  · intro hslot
    exact h.occupied slot (isSome_held?.trans hslot)

theorem Filled.length_entries (h : cache.Filled path) :
    cache.entries.length = path.length := by
  rw [h.entries_perm.length_eq, List.filterMap_length_eq_length]
  exact fun slot => h.threaded.isSome

theorem Filled.entries_eq_nil_iff (h : cache.Filled path) :
    cache.entries = [] ↔ path = [] := by
  rw [← List.length_eq_zero_iff, ← List.length_eq_zero_iff, h.length_entries]

theorem Consistent.bijOn_index [LawfulBEq κ] (h : cache.Consistent path) :
    Set.BijOn (fun key => cache.index[key]?) { key | key ∈ cache.index }
      (some '' cache.occupied) := by
  refine ⟨?_, ?_, ?_⟩
  · intro key hkey
    obtain ⟨slot, hslot⟩ := Option.isSome_iff_exists.1
      (Std.HashMap.mem_iff_isSome_getElem?.1 hkey)
    obtain ⟨entry, hentry, -⟩ := (h.indexed.getElem? key slot).1 hslot
    refine ⟨slot, ?_, hslot.symm⟩
    exact isSome_held?.symm.trans (by rw [hentry]; rfl)
  · intro key hkey other _ hsame
    obtain ⟨slot, hslot⟩ := Option.isSome_iff_exists.1
      (Std.HashMap.mem_iff_isSome_getElem?.1 hkey)
    obtain ⟨entry, hentry, rfl⟩ := (h.indexed.getElem? key slot).1 hslot
    obtain ⟨entry', hentry', rfl⟩ :=
      (h.indexed.getElem? other slot).1 (hsame.symm.trans hslot)
    rw [hentry] at hentry'
    cases hentry'
    rfl
  · rintro _ ⟨slot, hslot, rfl⟩
    obtain ⟨entry, hentry⟩ :=
      Option.isSome_iff_exists.1 (isSome_held?.trans hslot)
    have hindex := (h.indexed.getElem? entry.key slot).2 ⟨entry, hentry, rfl⟩
    obtain ⟨hmem, -⟩ := getElem?_eq_some_iff.1 hindex
    exact ⟨entry.key, hmem, hindex⟩

theorem Filled.weight_eq_sum (h : cache.Filled path) :
    cache.weight = (cache.entries.map LinkedEntry.weight).sum := by
  have hperm := h.entries_perm.map LinkedEntry.weight
  rw [h.weight, hperm.sum_eq, RecencyOrder.totalWeight_eq_sum,
    List.map_filterMap, List.map_filterMap]
  simp only [held?, Option.map_map, Function.comp_def]

theorem Consistent.sound [LawfulBEq κ] (h : cache.Consistent path) :
    cache.Sound path where
  older := h.filled.threaded.walk_older
  newer := h.filled.threaded.walk_newer
  oldest := h.filled.threaded.oldest.symm
  nodup := h.filled.threaded.nodup
  mem_path := h.filled.mem_path_iff
  newest_eq_none := by
    rw [h.filled.threaded.newest, List.head?_eq_none_iff,
      h.filled.entries_eq_nil_iff]
  oldest_eq_none := by
    rw [h.filled.threaded.oldest, List.getLast?_eq_none_iff,
      h.filled.entries_eq_nil_iff]
  index := h.bijOn_index
  indexed := by
    intro key slot hslot
    obtain ⟨held, hheld, rfl⟩ := (h.indexed.getElem? key slot).1 hslot
    obtain ⟨entry, hentry, rfl⟩ := Option.map_eq_some_iff.1 hheld
    exact ⟨entry, hentry, rfl⟩
  size := h.indexed.size.trans h.filled.length_entries.symm
  vacant_nodup := h.filled.vacant_nodup
  mem_vacant := by
    intro slot
    rw [h.filled.mem_vacant, ← Option.not_isSome_iff_eq_none, isSome_held?]
    rfl
  weight := h.filled.weight_eq_sum

/-! ## Slots and entries -/

theorem Filled.slotCount_eq (h : cache.Filled path) :
    cache.slots.size = path.length + cache.vacant.length := by
  have hdisjoint : path.Disjoint cache.vacant := by
    intro slot hslot hvacant
    obtain ⟨entry, hentry⟩ := h.exists_held hslot
    rw [h.mem_vacant, hentry] at hvacant
    cases hvacant.2
  -- Both sides list the numbers below the count of slots without repeats.
  have hperm : (path ++ cache.vacant).Perm
      (List.range cache.slots.size) := by
    refine (List.perm_ext_iff_of_nodup
      (h.threaded.nodup.append h.vacant_nodup hdisjoint)
      List.nodup_range).2 fun slot => ?_
    rw [List.mem_append, List.mem_range, h.mem_path_iff, h.mem_vacant,
      ← Option.not_isSome_iff_eq_none, isSome_held?]
    constructor
    · rintro (hslot | ⟨hbound, -⟩)
      · exact lt_slotCount_of_isSome hslot
      · exact hbound
    · intro hbound
      by_cases hslot : (cache.entryAt? slot).isSome
      · exact .inl hslot
      · exact .inr ⟨hbound, hslot⟩
  rw [← List.length_append, hperm.length_eq, List.length_range]

theorem slotCount_detach (cache : LinkedCache κ ν) (slot : Nat) :
    (cache.detach slot).2.slots.size = cache.slots.size := by
  have hsame := (sameHoldings_unlink cache slot).slotCount
  unfold LinkedCache.detach
  cases hentry : (cache.unlink slot).entryAt? slot with
  | none => simp [hentry, hsame]
  | some entry => simp [hentry, hsame]

theorem slotCount_get (cache : LinkedCache κ ν) (key : κ) :
    (cache.get key).2.slots.size = cache.slots.size := by
  unfold LinkedCache.get
  cases cache.index[key]? with
  | none => rfl
  | some slot => exact (sameHoldings_touch cache slot).slotCount

theorem slotCount_remove (cache : LinkedCache κ ν) (key : κ) :
    (cache.remove key).2.slots.size = cache.slots.size := by
  unfold LinkedCache.remove
  cases cache.index[key]? with
  | none => rfl
  | some slot => exact slotCount_detach _ slot

theorem slotCount_evictOldest (cache : LinkedCache κ ν) :
    cache.evictOldest.2.slots.size = cache.slots.size := by
  unfold LinkedCache.evictOldest
  cases cache.oldest with
  | none => rfl
  | some slot =>
      have hdetach := slotCount_detach cache slot
      dsimp only
      split
      · rename_i next hresult
        rw [hresult] at hdetach
        exact hdetach
      · rename_i entry next hresult
        rw [hresult] at hdetach
        exact hdetach

theorem slotCount_evictExcess (gone : List (κ × ν)) (rounds : Nat)
    (cache : LinkedCache κ ν) :
    (evictExcess gone rounds cache).2.slots.size = cache.slots.size := by
  induction rounds generalizing gone cache with
  | zero => rfl
  | succ rounds ih =>
      have hevict := slotCount_evictOldest cache
      unfold LinkedCache.evictExcess
      split
      · rfl
      · split
        · rename_i next hresult
          rw [hresult] at hevict
          exact hevict
        · rename_i evicted next hresult
          rw [hresult] at hevict
          exact (ih _ next).trans hevict

theorem slotCount_overwrite (cache : LinkedCache κ ν) (slot : Nat) (value : ν)
    (weight : Nat) :
    (cache.overwrite slot value weight).slots.size = cache.slots.size := by
  unfold LinkedCache.overwrite
  cases cache.entryAt? slot with
  | none => exact (sameHoldings_touch cache slot).slotCount
  | some old =>
      refine (sameHoldings_touch _ slot).slotCount.trans ?_
      simp [modifyEntry]

theorem Consistent.size_add_vacant (h : cache.Consistent path) :
    cache.size + cache.vacant.length = cache.slots.size := by
  rw [h.filled.slotCount_eq, LinkedCache.size, h.indexed.size]

theorem Consistent.slotCount_insertNew (h : cache.Consistent path) (key : κ)
    (value : ν) (weight : Nat) :
    (cache.insertNew key value weight).slots.size =
      max cache.slots.size (cache.size + 1) := by
  have hcount := h.size_add_vacant
  have hsame := sameHoldings_linkNewest
    (cache.placed ⟨key, value, weight, none, none⟩) cache.freeSlot.1
  rw [insertNew_eq_placed]
  refine hsame.slotCount.trans ?_
  unfold placed freeSlot
  cases hvacant : cache.vacant with
  | cons slot vacant =>
      simp only [hvacant, List.length_cons] at hcount
      simp only [Array.size_setIfInBounds]
      omega
  | nil =>
      simp only [hvacant, List.length_nil] at hcount
      simp only [Array.size_setIfInBounds, Array.size_push]
      omega

/-- The number of entries that there are at once in a call: a new one counts
before any leaves for it. -/
def sizeDuring (cache : LinkedCache κ ν) : CacheCall κ ν → Nat
  | .get _ => cache.size
  | .remove _ => cache.size
  | .put key _ weight =>
      if weight ≤ cache.capacity ∧ key ∉ cache.index then cache.size + 1
      else cache.size

variable [LawfulBEq κ]

theorem Consistent.slotCount_perform (h : cache.Consistent path)
    (call : CacheCall κ ν) :
    (cache.perform call).2.slots.size =
      max cache.slots.size (cache.sizeDuring call) := by
  have hcount := h.size_add_vacant
  have hkept : cache.slots.size = max cache.slots.size cache.size := by omega
  cases call with
  | get key => exact (slotCount_get cache key).trans hkept
  | remove key => exact (slotCount_remove cache key).trans hkept
  | put key value weight =>
      simp only [LinkedCache.perform, sizeDuring]
      by_cases hlarge : cache.capacity < weight
      · rw [if_neg (by omega), ← hkept, LinkedCache.put, if_pos hlarge]
        exact slotCount_remove cache key
      · have hsmall : weight ≤ cache.capacity := Nat.le_of_not_lt hlarge
        rw [put_of_le key value hsmall, slotCount_evictExcess,
          LinkedCache.stored]
        cases hindex : cache.index[key]? with
        | some slot =>
            obtain ⟨hmem, -⟩ := getElem?_eq_some_iff.1 hindex
            rw [if_neg (by simp [hmem]), ← hkept]
            exact slotCount_overwrite cache slot value weight
        | none =>
            have hfresh : key ∉ cache.index :=
              (getElem?_eq_none_iff _ _).1 hindex
            rw [if_pos ⟨hsmall, hfresh⟩]
            exact h.slotCount_insertNew key value weight

variable [DecidableEq κ]

def greatestSize (cache : LinkedCache κ ν) : List (CacheCall κ ν) → Nat
  | [] => cache.size
  | call :: rest =>
      max (cache.sizeDuring call) (greatestSize (cache.perform call).2 rest)

theorem Keeps.slotCount_performAll (h : cache.Keeps order)
    (calls : List (CacheCall κ ν)) :
    (performAll LinkedCache.perform cache calls).2.slots.size =
      max cache.slots.size (cache.greatestSize calls) := by
  induction calls generalizing cache order with
  | nil =>
      obtain ⟨path, hpath, -⟩ := h
      have hcount := hpath.size_add_vacant
      simp only [performAll, greatestSize]
      omega
  | cons call rest ih =>
      obtain ⟨-, hnext⟩ := h.perform call
      obtain ⟨path, hpath, -⟩ := h
      simp only [performAll, greatestSize]
      rw [ih hnext, hpath.slotCount_perform call, Nat.max_assoc]

/-! ## Calls on an empty cache -/

theorem Follows.performAll (h : cache.Follows capacity order)
    (calls : List (CacheCall κ ν)) :
    (performAll LinkedCache.perform cache calls).2.Follows capacity
      (performAll RecencyOrder.perform order calls).2 :=
  (performAll_agree (fun _ _ call hnext => hnext.perform call) h calls).2

/-- After any calls on an empty cache the slots are in good order, and there are
as many of them as there have been entries at once.  No step of a further call is
a misstep. -/
theorem slots_in_good_order (capacity : Nat) (hcapacity : capacity < 2 ^ 63)
    (calls : List (CacheCall κ ν)) :
    let cache := (performAll perform (empty capacity) calls).2
    (∃ path, cache.Sound path) ∧
      cache.slots.size = greatestSize (empty capacity) calls ∧
      ∀ call, cache.checkedPerform call = .ok (cache.perform call) := by
  intro cache
  have hstart : (empty capacity : LinkedCache κ ν).Follows capacity
      (.empty capacity) :=
    ⟨keeps_empty capacity, Nat.zero_le _, rfl⟩
  have h := hstart.performAll calls
  obtain ⟨path, hpath, -⟩ := h.keeps
  refine ⟨⟨path, hpath.sound⟩, ?_, h.checkedPerform_eq hcapacity⟩
  rw [Keeps.slotCount_performAll hstart.keeps calls]
  exact Nat.zero_max _

/-- Two entries leave for a heavy one, and a later entry takes a slot that one of
them had. -/
theorem slots_in_good_order_fourKeys :
    let calls : List (CacheCall Nat String) :=
      [.put 1 "a" 3, .put 2 "b" 3, .put 3 "c" 8, .put 4 "d" 1]
    let cache := (performAll perform (empty 10) calls).2
    10 < 2 ^ 63 ∧ (∃ path, cache.Sound path) ∧ cache.slots.size = 3 ∧
      cache.checkedPerform (.put 5 "e" 12) =
        .ok (cache.perform (.put 5 "e" 12)) := by
  intro calls cache
  obtain ⟨hsound, hcount, hchecked⟩ := slots_in_good_order 10 (by decide) calls
  refine ⟨by decide, hsound, ?_, hchecked _⟩
  rw [hcount]
  simp [calls, greatestSize, sizeDuring, perform, put, empty, insertNew,
    linkNewest, modifyEntry, setNewer, setOlder, size, evictExcess, evictOldest,
    detach, unlink, entryAt?, Std.HashMap.size_insert, Std.HashMap.size_erase]

end TieredCache.LinkedCache
