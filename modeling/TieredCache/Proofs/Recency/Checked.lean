import Mathlib
import TieredCache.Proofs.Errors
import TieredCache.Proofs.Recency.Answers

/-!
# Operations that check their steps

A cache addresses its slots by number, takes off its weight what entries weighed,
and evicts the oldest entry while it is too heavy.  A checked operation stops at
the first step that cannot be taken: one that addresses a slot past the last,
takes off more weight than there is, adds more than a word counts, or evicts where
there is nothing to evict.  In a consistent cache no step is of that kind, so the
checked operations give what the plain ones give.
-/

namespace TieredCache

inductive Misstep where
  | noSlot (slot : Nat)
  | weightBelowZero
  | weightTooLarge
  | nothingToEvict
  deriving DecidableEq, Repr

namespace LinkedCache

variable {κ ν : Type} [BEq κ] [Hashable κ] {cache : LinkedCache κ ν}
  {path : List Nat} {slot : Nat} {order : RecencyOrder κ ν} {capacity : Nat}

/-! ## Checked steps -/

def slotAt (cache : LinkedCache κ ν) (slot : Nat) :
    Except Misstep (Option (LinkedEntry κ ν)) :=
  if h : slot < cache.slots.size then .ok cache.slots[slot]
  else .error (.noSlot slot)

def neighbour (cache : LinkedCache κ ν) (link : Option Nat) :
    Except Misstep (Option Nat) :=
  match link with
  | none => .ok none
  | some slot => do
      let content ← cache.slotAt slot
      return content.map fun _ => slot

def takeOff (cache : LinkedCache κ ν) (weight : Nat) :
    Except Misstep (LinkedCache κ ν) :=
  if weight ≤ cache.weight then
    .ok { cache with weight := cache.weight - weight }
  else .error .weightBelowZero

def addOn (cache : LinkedCache κ ν) (weight : Nat) :
    Except Misstep (LinkedCache κ ν) :=
  if cache.weight + weight < UInt64.size then
    .ok { cache with weight := cache.weight + weight }
  else .error .weightTooLarge

/-! ## Checked links -/

def checkedLinkNewest (cache : LinkedCache κ ν) (slot : Nat) :
    Except Misstep (LinkedCache κ ν) := do
  let previous := cache.newest
  let _ ← cache.slotAt slot
  let cache := cache.modifyEntry slot fun entry =>
    { entry with newer := none, older := previous }
  let front ← cache.neighbour previous
  return { cache.setNewer front (some slot) with newest := some slot }

def checkedUnlink (cache : LinkedCache κ ν) (slot : Nat) :
    Except Misstep (LinkedCache κ ν) := do
  match ← cache.slotAt slot with
  | none => return cache
  | some entry =>
      let newer ← cache.neighbour entry.newer
      let cache := cache.setOlder newer entry.older
      let older ← cache.neighbour entry.older
      return cache.setNewer older entry.newer

def checkedTouch (cache : LinkedCache κ ν) (slot : Nat) :
    Except Misstep (LinkedCache κ ν) :=
  if cache.newest = some slot then .ok cache
  else do
    let cache ← cache.checkedUnlink slot
    cache.checkedLinkNewest slot

def checkedDetach (cache : LinkedCache κ ν) (slot : Nat) :
    Except Misstep (Option (LinkedEntry κ ν) × LinkedCache κ ν) := do
  let cache ← cache.checkedUnlink slot
  match ← cache.slotAt slot with
  | none => return (none, cache)
  | some entry =>
      let cache := { cache with
        slots := cache.slots.setIfInBounds slot none
        vacant := slot :: cache.vacant }
      return (some entry, ← cache.takeOff entry.weight)

/-! ## Checked operations -/

def checkedGet (cache : LinkedCache κ ν) (key : κ) :
    Except Misstep (Option ν × LinkedCache κ ν) :=
  match cache.index[key]? with
  | none => .ok (none, cache)
  | some slot => do
      let cache ← cache.checkedTouch slot
      let content ← cache.slotAt slot
      return (content.map LinkedEntry.value, cache)

def checkedRemove (cache : LinkedCache κ ν) (key : κ) :
    Except Misstep (Option ν × LinkedCache κ ν) :=
  match cache.index[key]? with
  | none => .ok (none, cache)
  | some slot => do
      let (entry, cache) ←
        { cache with index := cache.index.erase key }.checkedDetach slot
      return (entry.map LinkedEntry.value, cache)

def checkedInsertNew (cache : LinkedCache κ ν) (key : κ) (value : ν)
    (weight : Nat) : Except Misstep (LinkedCache κ ν) := do
  let (slot, cache) := cache.freeSlot
  let _ ← cache.slotAt slot
  let entry := some ⟨key, value, weight, none, none⟩
  let cache := { cache with slots := cache.slots.setIfInBounds slot entry }
  let cache ← cache.checkedLinkNewest slot
  { cache with index := cache.index.insert key slot }.addOn weight

def checkedOverwrite (cache : LinkedCache κ ν) (slot : Nat) (value : ν)
    (weight : Nat) : Except Misstep (LinkedCache κ ν) := do
  match ← cache.slotAt slot with
  | none => cache.checkedTouch slot
  | some old =>
      let cache ← cache.takeOff old.weight
      let cache ← cache.addOn weight
      let cache := cache.modifyEntry slot fun entry =>
        { entry with value, weight }
      cache.checkedTouch slot

/-- The excess must be gone after at most `rounds` evictions, each of which must
find an entry. -/
def checkedEvictExcess (gone : List (κ × ν)) :
    Nat → LinkedCache κ ν → Except Misstep (List (κ × ν) × LinkedCache κ ν)
  | 0, cache =>
      if cache.weight ≤ cache.capacity then .ok (gone.reverse, cache)
      else .error .nothingToEvict
  | rounds + 1, cache =>
      if cache.weight ≤ cache.capacity then .ok (gone.reverse, cache)
      else
        match cache.oldest with
        | none => .error .nothingToEvict
        | some slot => do
            match ← cache.checkedDetach slot with
            | (none, _) => throw .nothingToEvict
            | (some entry, cache) =>
                checkedEvictExcess ((entry.key, entry.value) :: gone) rounds
                  { cache with index := cache.index.erase entry.key }

def checkedStored (cache : LinkedCache κ ν) (key : κ) (value : ν)
    (weight : Nat) : Except Misstep (LinkedCache κ ν) :=
  match cache.index[key]? with
  | some slot => cache.checkedOverwrite slot value weight
  | none => cache.checkedInsertNew key value weight

def checkedPut (cache : LinkedCache κ ν) (key : κ) (value : ν)
    (weight : Nat) : Except Misstep (List (κ × ν) × LinkedCache κ ν) :=
  if cache.capacity < weight then do
    let (_, cache) ← cache.checkedRemove key
    return ([(key, value)], cache)
  else do
    let cache ← cache.checkedStored key value weight
    checkedEvictExcess [] cache.size cache

def checkedPerform (cache : LinkedCache κ ν) :
    CacheCall κ ν → Except Misstep (CacheAnswer κ ν × LinkedCache κ ν)
  | .get key => do
      let (found, cache) ← cache.checkedGet key
      return (.value found, cache)
  | .remove key => do
      let (found, cache) ← cache.checkedRemove key
      return (.value found, cache)
  | .put key value weight => do
      let (gone, cache) ← cache.checkedPut key value weight
      return (.evicted gone, cache)

/-! ## Steps that can be taken -/

theorem slotAt_eq (h : slot < cache.slots.size) :
    cache.slotAt slot = .ok (cache.entryAt? slot) := by
  rw [slotAt, dif_pos h, entryAt?, Array.getElem?_eq_getElem h]
  rfl

theorem slotAt_of_entry {entry : LinkedEntry κ ν}
    (h : cache.entryAt? slot = some entry) :
    cache.slotAt slot = .ok (some entry) := by
  rw [slotAt_eq (lt_slotCount_of_isSome (by rw [h]; rfl)), h]

theorem neighbour_eq {link : Option Nat}
    (h : ∀ slot, link = some slot → (cache.entryAt? slot).isSome) :
    cache.neighbour link = .ok link := by
  cases link with
  | none => rfl
  | some slot =>
      obtain ⟨entry, hentry⟩ := Option.isSome_iff_exists.1 (h slot rfl)
      exact bind_of_ok (slotAt_of_entry hentry) rfl

theorem takeOff_eq {weight : Nat} (h : weight ≤ cache.weight) :
    cache.takeOff weight =
      .ok { cache with weight := cache.weight - weight } :=
  if_pos h

theorem addOn_eq {weight : Nat} (h : cache.weight + weight < UInt64.size) :
    cache.addOn weight = .ok { cache with weight := cache.weight + weight } :=
  if_pos h

/-! ## Links of a path -/

theorem checkedLinkNewest_eq (hslot : slot < cache.slots.size)
    (hnewest : ∀ other, cache.newest = some other →
      (cache.entryAt? other).isSome) :
    cache.checkedLinkNewest slot = .ok (cache.linkNewest slot) := by
  let linked := cache.modifyEntry slot fun entry =>
    { entry with newer := none, older := cache.newest }
  have hsame : linked.SameHoldings cache :=
    sameHoldings_modifyEntry cache slot _ (fun _ => rfl) (fun _ => rfl)
      (fun _ => rfl)
  have hfront : linked.neighbour cache.newest = .ok cache.newest := by
    apply neighbour_eq
    intro other ho
    rw [hsame.isSome_entryAt?]
    exact hnewest other ho
  unfold checkedLinkNewest
  exact bind_of_ok (slotAt_eq hslot) (bind_of_ok hfront rfl)

theorem Threaded.checkedUnlink_eq (h : cache.Threaded path)
    (hslot : slot ∈ path) :
    cache.checkedUnlink slot = .ok (cache.unlink slot) := by
  obtain ⟨before, after, rfl⟩ := List.append_of_mem hslot
  obtain ⟨entry, hentry⟩ := Option.isSome_iff_exists.1 (h.isSome hslot)
  obtain ⟨hnewer, holder⟩ := h.links_of_split hentry
  have hfirst : cache.neighbour entry.newer = .ok entry.newer := by
    apply neighbour_eq
    intro other ho
    rw [hnewer] at ho
    exact h.isSome (List.mem_append_left _ (List.mem_of_getLast? ho))
  -- The first of the two links is set by now, which empties no slot.
  have hsecond : (cache.setOlder entry.newer entry.older).neighbour
      entry.older = .ok entry.older := by
    apply neighbour_eq
    intro other ho
    rw [holder] at ho
    rw [(sameHoldings_setOlder _ _ _).isSome_entryAt?]
    exact h.isSome (List.mem_append_right _
      (List.mem_cons_of_mem _ (List.mem_of_head? ho)))
  have hunlink : cache.unlink slot =
      (cache.setOlder entry.newer entry.older).setNewer entry.older
        entry.newer := by
    simp only [LinkedCache.unlink, hentry]
  rw [hunlink]
  unfold checkedUnlink
  exact bind_of_ok (slotAt_of_entry hentry)
    (bind_of_ok hfirst (bind_of_ok hsecond rfl))

theorem Threaded.checkedTouch_eq (h : cache.Threaded path)
    (hslot : slot ∈ path) :
    cache.checkedTouch slot = .ok (cache.touch slot) := by
  unfold checkedTouch LinkedCache.touch
  split
  · rfl
  · refine bind_of_ok (h.checkedUnlink_eq hslot) ?_
    have hsame := sameHoldings_unlink cache slot
    have hbound := lt_slotCount_of_isSome (h.isSome hslot)
    rw [← hsame.slotCount] at hbound
    obtain ⟨before, after, rfl⟩ := List.append_of_mem hslot
    exact checkedLinkNewest_eq hbound fun _ => h.unlink.isSome_of_newest

/-- A slot that is not there cannot be touched. -/
example : (empty 1 : LinkedCache Nat Nat).checkedTouch 0 =
    .error (.noSlot 0) := rfl

theorem Filled.checkedDetach_eq (h : cache.Filled path) (hslot : slot ∈ path) :
    cache.checkedDetach slot = .ok (cache.detach slot) := by
  have hsame := sameHoldings_unlink cache slot
  have hoccupied := h.threaded.isSome hslot
  rw [← hsame.isSome_entryAt?] at hoccupied
  obtain ⟨entry, hentry⟩ := Option.isSome_iff_exists.1 hoccupied
  have hweight : entry.weight ≤ (cache.unlink slot).weight := by
    rw [hsame.weight]
    exact h.weight_le
      ((hsame.held? slot).symm.trans (held?_of_entryAt? hentry))
  have hdetach : cache.detach slot =
      (some entry,
        { cache.unlink slot with
          slots := (cache.unlink slot).slots.setIfInBounds slot none
          vacant := slot :: (cache.unlink slot).vacant
          weight := (cache.unlink slot).weight - entry.weight }) := by
    simp only [LinkedCache.detach, hentry]
  rw [hdetach]
  unfold checkedDetach
  exact bind_of_ok (h.threaded.checkedUnlink_eq hslot)
    (bind_of_ok (slotAt_of_entry hentry) (bind_of_ok (takeOff_eq hweight) rfl))

/-! ## Operations on a consistent cache -/

theorem Consistent.checkedGet_eq (h : cache.Consistent path) (key : κ) :
    cache.checkedGet key = .ok (cache.get key) := by
  unfold checkedGet LinkedCache.get
  cases hindex : cache.index[key]? with
  | none => rfl
  | some slot =>
      obtain ⟨before, after, entry, rfl, -⟩ := h.split_of_some hindex
      have hslot : slot ∈ before ++ slot :: after := by simp
      have hbound := lt_slotCount_of_isSome (h.filled.threaded.isSome hslot)
      rw [← (sameHoldings_touch cache slot).slotCount] at hbound
      exact bind_of_ok (h.filled.threaded.checkedTouch_eq hslot)
        (bind_of_ok (slotAt_eq hbound) rfl)

theorem Consistent.checkedRemove_eq (h : cache.Consistent path) (key : κ) :
    cache.checkedRemove key = .ok (cache.remove key) := by
  unfold checkedRemove LinkedCache.remove
  cases hindex : cache.index[key]? with
  | none => rfl
  | some slot =>
      obtain ⟨before, after, entry, rfl, -⟩ := h.split_of_some hindex
      have hfilled := h.filled.withIndex (cache.index.erase key)
      exact bind_of_ok (hfilled.checkedDetach_eq (by simp)) rfl

theorem Consistent.checkedOverwrite_eq (h : cache.Consistent path)
    (hslot : slot ∈ path) (value : ν) {weight : Nat}
    (hweight : cache.weight + weight < UInt64.size) :
    cache.checkedOverwrite slot value weight =
      .ok (cache.overwrite slot value weight) := by
  obtain ⟨old, hold⟩ :=
    Option.isSome_iff_exists.1 (h.filled.threaded.isSome hslot)
  obtain ⟨before, after, rfl⟩ := List.append_of_mem hslot
  have hless := h.filled.weight_le (held?_of_entryAt? hold)
  have hmore : cache.weight - old.weight + weight < UInt64.size := by omega
  have hrewritten := h.filled.rewrite value weight hold
  rw [overwrite_eq value weight hold]
  unfold checkedOverwrite
  exact bind_of_ok (slotAt_of_entry hold)
    (bind_of_ok (takeOff_eq hless) (bind_of_ok (addOn_eq hmore)
      (hrewritten.threaded.checkedTouch_eq hslot)))

theorem Filled.checkedInsertNew_eq (h : cache.Filled path) (key : κ)
    (value : ν) {weight : Nat}
    (hweight : cache.weight + weight < UInt64.size) :
    cache.checkedInsertNew key value weight =
      .ok (cache.insertNew key value weight) := by
  let entry : LinkedEntry κ ν := ⟨key, value, weight, none, none⟩
  obtain ⟨-, hnewest, -, htotal, -⟩ := cache.placed_keeps entry
  have hbound : cache.freeSlot.1 < (cache.placed entry).slots.size := by
    simpa [placed] using h.freeSlot_lt
  have hfront : ∀ other, (cache.placed entry).newest = some other →
      ((cache.placed entry).entryAt? other).isSome := by
    intro other ho
    rw [h.entryAt?_placed]
    split
    · rfl
    · exact h.threaded.isSome_of_newest (hnewest.symm.trans ho)
  have hsame := sameHoldings_linkNewest (cache.placed entry) cache.freeSlot.1
  have hsum : ((cache.placed entry).linkNewest cache.freeSlot.1).weight +
      weight < UInt64.size := by
    rw [hsame.weight, htotal]
    exact hweight
  rw [insertNew_eq_placed]
  unfold checkedInsertNew
  exact bind_of_ok (slotAt_eq h.freeSlot_lt)
    (bind_of_ok (checkedLinkNewest_eq hbound hfront) (addOn_eq hsum))

/-! ## Storing and evicting -/

theorem Consistent.checkedEvictExcess_eq [LawfulBEq κ]
    (h : cache.Consistent path) (gone : List (κ × ν)) {rounds : Nat}
    (hrounds : path.length ≤ rounds) :
    checkedEvictExcess gone rounds cache =
      .ok (LinkedCache.evictExcess gone rounds cache) := by
  induction rounds generalizing cache path gone with
  | zero =>
      obtain rfl := List.length_eq_zero_iff.1 (Nat.le_zero.1 hrounds)
      exact if_pos (h.filled.weight ▸ Nat.zero_le _)
  | succ rounds ih =>
      by_cases hexcess : cache.weight ≤ cache.capacity
      · simp only [checkedEvictExcess, LinkedCache.evictExcess,
          if_pos hexcess]
      -- What weighs too much has an entry, and the path ends at the oldest.
      · rcases List.eq_nil_or_concat' path with rfl | ⟨front, last, rfl⟩
        · exact absurd (h.filled.weight ▸ Nat.zero_le _) hexcess
        · obtain ⟨evicted, next, hevict, -, hnext, -⟩ := h.evictOldest
          obtain ⟨entry, detached, hdetach, -⟩ := h.filled.detach
          have holdest : cache.oldest = some last := by
            rw [h.filled.threaded.oldest, List.getLast?_concat]
          have hsame : cache.evictOldest = (some (entry.key, entry.value),
              { detached with index := detached.index.erase entry.key }) := by
            simp only [LinkedCache.evictOldest, holdest, hdetach]
          rw [hevict, Prod.mk.injEq] at hsame
          obtain ⟨-, rfl⟩ := hsame
          have hlength : front.length ≤ rounds := by
            rw [List.length_append] at hrounds
            exact Nat.le_of_succ_le_succ hrounds
          simp only [checkedEvictExcess, LinkedCache.evictExcess,
            LinkedCache.evictOldest, if_neg hexcess, holdest, hdetach]
          refine bind_of_ok (h.filled.checkedDetach_eq (by simp)) ?_
          rw [hdetach]
          exact ih hnext _ hlength

theorem Consistent.checkedStored_eq (h : cache.Consistent path) (key : κ)
    (value : ν) {weight : Nat}
    (hweight : cache.weight + weight < UInt64.size) :
    cache.checkedStored key value weight =
      .ok (cache.stored key value weight) := by
  unfold checkedStored LinkedCache.stored
  cases hindex : cache.index[key]? with
  | some slot =>
      obtain ⟨before, after, entry, rfl, -⟩ := h.split_of_some hindex
      exact h.checkedOverwrite_eq (by simp) value hweight
  | none => exact h.filled.checkedInsertNew_eq key value hweight

section Storing

variable [DecidableEq κ] [LawfulBEq κ]

theorem Follows.checkedPut_eq (h : cache.Follows capacity order)
    (hcapacity : capacity < 2 ^ 63) (key : κ) (value : ν) (weight : Nat) :
    cache.checkedPut key value weight = .ok (cache.put key value weight) := by
  obtain ⟨⟨path, hpath, rfl⟩, hfits, rfl⟩ := h
  by_cases hlarge : cache.capacity < weight
  · unfold checkedPut LinkedCache.put
    rw [if_pos hlarge, if_pos hlarge]
    exact bind_of_ok (hpath.checkedRemove_eq key) rfl
  · have hsmall : weight ≤ cache.capacity := Nat.le_of_not_lt hlarge
    have hsum : cache.weight + weight < UInt64.size := by
      have htotal : cache.weight ≤ cache.capacity :=
        hpath.filled.weight.trans_le hfits
      have hbound : cache.capacity < 2 ^ 63 := hcapacity
      simp only [UInt64.size]
      omega
    obtain ⟨path', hstored, -⟩ := hpath.stored key value weight
    rw [put_of_le key value hsmall]
    unfold checkedPut
    rw [if_neg hlarge]
    exact bind_of_ok (hpath.checkedStored_eq key value hsum)
      (hstored.checkedEvictExcess_eq [] (Nat.le_of_eq hstored.indexed.size.symm))

theorem Follows.checkedPerform_eq (h : cache.Follows capacity order)
    (hcapacity : capacity < 2 ^ 63) (call : CacheCall κ ν) :
    cache.checkedPerform call = .ok (cache.perform call) := by
  obtain ⟨path, hpath, -⟩ := h.keeps
  cases call with
  | get key => exact bind_of_ok (hpath.checkedGet_eq key) rfl
  | remove key => exact bind_of_ok (hpath.checkedRemove_eq key) rfl
  | put key value weight =>
      exact bind_of_ok (h.checkedPut_eq hcapacity key value weight) rfl

end Storing

end LinkedCache

end TieredCache
