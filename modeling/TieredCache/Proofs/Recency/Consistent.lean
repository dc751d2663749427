import Mathlib
import TieredCache.Proofs.Recency.Filled

/-!
# Operations along the path of a cache

A cache is consistent with a path when its slots are filled and indexed along
it.  Touching, rewriting, inserting and evicting lead from one path to another,
and to the order of use that the next path reads off.
-/

namespace TieredCache.LinkedCache

open RecencyOrder (totalWeight)

variable {κ ν : Type} [BEq κ] [Hashable κ]

structure Consistent (cache : LinkedCache κ ν) (path : List Nat) : Prop where
  filled : cache.Filled path
  indexed : cache.Indexed path

/-- The order of use that a path reads off. -/
def orderAlong (cache : LinkedCache κ ν) (path : List Nat) :
    RecencyOrder κ ν :=
  ⟨cache.capacity, path.filterMap cache.held?⟩

variable {cache : LinkedCache κ ν} {path : List Nat} {slot : Nat}

/-! ## Keys along the path -/

theorem Consistent.keys_nodup (h : cache.Consistent path) :
    ((path.filterMap cache.held?).map WeightedEntry.key).Nodup := by
  rw [List.map_filterMap]
  apply h.filled.threaded.nodup.filterMap
  intro first second key hfirst hsecond
  obtain ⟨entry, hentry, hkey⟩ := Option.map_eq_some_iff.1 hfirst
  obtain ⟨entry', hentry', hkey'⟩ := Option.map_eq_some_iff.1 hsecond
  have hslot := (h.indexed.getElem? key first).2 ⟨entry, hentry, hkey⟩
  have hslot' := (h.indexed.getElem? key second).2 ⟨entry', hentry', hkey'⟩
  rw [hslot] at hslot'
  exact Option.some.inj hslot'

theorem Consistent.length_entries (h : cache.Consistent path) :
    (path.filterMap cache.held?).length = path.length := by
  rw [List.filterMap_length_eq_length]
  intro slot hslot
  obtain ⟨entry, hentry⟩ := h.filled.exists_held hslot
  rw [hentry]
  rfl

/-- The index leads from a key into the path, and the slot there holds it. -/
theorem Consistent.split_of_some (h : cache.Consistent path) {key : κ}
    (hslot : cache.index[key]? = some slot) :
    ∃ before after entry, path = before ++ slot :: after ∧
      cache.held? slot = some entry ∧ entry.key = key := by
  obtain ⟨entry, hentry, hkey⟩ := (h.indexed.getElem? key slot).1 hslot
  obtain ⟨before, after, rfl⟩ :=
    List.append_of_mem (h.filled.occupied slot (by rw [hentry]; rfl))
  exact ⟨before, after, entry, rfl, hentry, hkey⟩

theorem Consistent.absent_of_none (h : cache.Consistent path) {key : κ}
    (hnone : cache.index[key]? = none) {entry : WeightedEntry κ ν}
    (hentry : entry ∈ path.filterMap cache.held?) : entry.key ≠ key := by
  rintro rfl
  obtain ⟨slot, -, hheld⟩ := List.mem_filterMap.1 hentry
  have hslot := (h.indexed.getElem? entry.key slot).2 ⟨entry, hheld, rfl⟩
  rw [hnone] at hslot
  cases hslot

section Lookups

variable [DecidableEq κ]

theorem Consistent.find?_of_split {before after : List Nat}
    {entry : WeightedEntry κ ν}
    (h : cache.Consistent (before ++ slot :: after))
    (hentry : cache.held? slot = some entry) :
    (cache.orderAlong (before ++ slot :: after)).find? entry.key = some entry ∧
      (cache.orderAlong (before ++ slot :: after)).others entry.key =
        (before ++ after).filterMap cache.held? := by
  have hentries : (cache.orderAlong (before ++ slot :: after)).entries =
      before.filterMap cache.held? ++
        entry :: after.filterMap cache.held? := by
    simp only [orderAlong, List.filterMap_append, List.filterMap_cons, hentry]
  rw [List.filterMap_append]
  exact RecencyOrder.find?_of_split hentries h.keys_nodup

theorem Consistent.find?_of_none (h : cache.Consistent path)
    {key : κ} (hnone : cache.index[key]? = none) :
    (cache.orderAlong path).find? key = none ∧
      (cache.orderAlong path).others key = path.filterMap cache.held? :=
  RecencyOrder.find?_of_absent fun _ => h.absent_of_none hnone

end Lookups

/-! ## Changing one slot -/

theorem Filled.withIndex (h : cache.Filled path) (index : Std.HashMap κ Nat) :
    Filled { cache with index } path :=
  ⟨h.threaded.congr rfl rfl fun _ _ => rfl, h.occupied, h.vacant_nodup,
    h.mem_vacant, h.weight⟩

theorem Consistent.touch {before after : List Nat}
    (h : cache.Consistent (before ++ slot :: after)) :
    (cache.touch slot).Consistent (slot :: (before ++ after)) := by
  have hsame := sameHoldings_touch cache slot
  have hheld : (cache.touch slot).held? = cache.held? := funext hsame.held?
  refine ⟨⟨h.filled.threaded.touch, ?_, ?_, ?_, ?_⟩, ⟨?_, ?_⟩⟩
  · intro other ho
    rw [hheld] at ho
    have hmem := h.filled.occupied other ho
    simp only [List.mem_append, List.mem_cons] at hmem ⊢
    tauto
  · rw [hsame.vacant]
    exact h.filled.vacant_nodup
  · intro other
    rw [hsame.vacant, hsame.slotCount, hheld, h.filled.mem_vacant]
  · rw [hsame.weight, hheld, h.filled.weight]
    simp only [List.filterMap_append, List.filterMap_cons]
    cases cache.held? slot with
    | none => rfl
    | some entry =>
        simp only [RecencyOrder.totalWeight_append, totalWeight]
        omega
  · intro key other
    rw [hsame.index, hheld, h.indexed.getElem?]
  · rw [hsame.index, h.indexed.size]
    simp
    omega

/-! ## Rewriting an entry -/

def rewrite (cache : LinkedCache κ ν) (slot : Nat) (old : LinkedEntry κ ν)
    (value : ν) (weight : Nat) : LinkedCache κ ν :=
  { cache.modifyEntry slot fun entry => { entry with value, weight } with
    weight := cache.weight - old.weight + weight }

section Rewriting

variable {old : LinkedEntry κ ν} (value : ν) (weight : Nat)

theorem overwrite_eq (hold : cache.entryAt? slot = some old) :
    cache.overwrite slot value weight =
      (cache.rewrite slot old value weight).touch slot := by
  simp only [LinkedCache.overwrite, hold]
  rfl

theorem entryAt?_rewrite (other : Nat) :
    (cache.rewrite slot old value weight).entryAt? other =
      if other = slot then
        (cache.entryAt? other).map fun entry => { entry with value, weight }
      else cache.entryAt? other :=
  entryAt?_modifyEntry cache slot _ other

theorem held?_rewrite (hold : cache.entryAt? slot = some old) (other : Nat) :
    (cache.rewrite slot old value weight).held? other =
      if other = slot then some ⟨old.key, value, weight⟩
      else cache.held? other := by
  rw [held?, entryAt?_rewrite]
  by_cases heq : other = slot
  · rw [if_pos heq, if_pos heq, heq, hold]
    rfl
  · rw [if_neg heq, if_neg heq]
    rfl

theorem isSome_held?_rewrite (hold : cache.entryAt? slot = some old)
    (other : Nat) :
    ((cache.rewrite slot old value weight).held? other).isSome =
      (cache.held? other).isSome := by
  rw [held?_rewrite value weight hold]
  by_cases heq : other = slot
  · rw [if_pos heq, heq, held?, hold]
    rfl
  · rw [if_neg heq]

theorem filterMap_held?_rewrite (hold : cache.entryAt? slot = some old)
    (hfresh : slot ∉ path) :
    path.filterMap (cache.rewrite slot old value weight).held? =
      path.filterMap cache.held? := by
  apply List.filterMap_congr
  intro other ho
  rw [held?_rewrite value weight hold, if_neg (ne_of_mem_of_not_mem ho hfresh)]

theorem Filled.rewrite {before after : List Nat}
    (h : cache.Filled (before ++ slot :: after))
    (hold : cache.entryAt? slot = some old) :
    (cache.rewrite slot old value weight).Filled
      (before ++ slot :: after) := by
  have hheld := held?_of_entryAt? hold
  have hfresh := (List.nodup_middle.1 h.threaded.nodup).notMem
  refine ⟨?_, ?_, h.vacant_nodup, ?_, ?_⟩
  · refine h.threaded.congr rfl rfl fun other _ => ?_
    rw [links?, entryAt?_rewrite]
    split
    · rw [Option.map_map]
      rfl
    · rfl
  · intro other ho
    rw [isSome_held?_rewrite value weight hold] at ho
    exact h.occupied other ho
  · intro other
    have hsize : (cache.rewrite slot old value weight).slots.size =
        cache.slots.size := by
      simp [LinkedCache.rewrite, modifyEntry]
    rw [hsize, ← Option.isNone_iff_eq_none, ← Option.not_isSome,
      isSome_held?_rewrite value weight hold, Option.not_isSome,
      Option.isNone_iff_eq_none]
    exact h.mem_vacant other
  · have hweight := h.weight
    have hrest := congrArg totalWeight
      (filterMap_held?_rewrite value weight hold hfresh)
    simp only [List.filterMap_append, List.filterMap_cons, hheld,
      held?_rewrite value weight hold slot, if_true,
      RecencyOrder.totalWeight_append, totalWeight] at hweight hrest ⊢
    change cache.weight - old.weight + weight = _
    omega

theorem Indexed.rewrite (h : cache.Indexed path)
    (hold : cache.entryAt? slot = some old) :
    (cache.rewrite slot old value weight).Indexed path := by
  constructor
  · intro key other
    change cache.index[key]? = some other ↔ _
    rw [h.getElem? key other, held?_rewrite value weight hold]
    by_cases heq : other = slot
    · simp [heq, held?, hold]
    · simp [heq]
  · exact h.size

theorem Consistent.overwrite {before after : List Nat}
    (h : cache.Consistent (before ++ slot :: after))
    (hold : cache.entryAt? slot = some old) :
    (cache.overwrite slot value weight).Consistent
        (slot :: (before ++ after)) ∧
      (cache.overwrite slot value weight).orderAlong
          (slot :: (before ++ after)) =
        ⟨cache.capacity, ⟨old.key, value, weight⟩ ::
          (before ++ after).filterMap cache.held?⟩ := by
  have hfresh := (List.nodup_middle.1 h.filled.threaded.nodup).notMem
  have hsame := sameHoldings_touch (cache.rewrite slot old value weight) slot
  have hrewritten : (cache.rewrite slot old value weight).Consistent
      (before ++ slot :: after) :=
    ⟨h.filled.rewrite value weight hold, h.indexed.rewrite value weight hold⟩
  rw [overwrite_eq value weight hold]
  refine ⟨hrewritten.touch, ?_⟩
  rw [orderAlong, funext hsame.held?, hsame.capacity, List.filterMap_cons,
    held?_rewrite value weight hold, if_pos rfl,
    filterMap_held?_rewrite value weight hold hfresh]
  rfl

end Rewriting

/-! ## Inserting an entry -/

/-- A slot for a new entry, vacant so far or past the last, and the cache that has
it among its slots and no longer calls it vacant. -/
def freeSlot (cache : LinkedCache κ ν) : Nat × LinkedCache κ ν :=
  match cache.vacant with
  | slot :: vacant => (slot, { cache with vacant })
  | [] => (cache.slots.size, { cache with slots := cache.slots.push none })

def placed (cache : LinkedCache κ ν) (entry : LinkedEntry κ ν) :
    LinkedCache κ ν :=
  { cache.freeSlot.2 with
    slots := cache.freeSlot.2.slots.setIfInBounds cache.freeSlot.1 entry }

theorem insertNew_eq_placed (cache : LinkedCache κ ν) (key : κ) (value : ν)
    (weight : Nat) :
    cache.insertNew key value weight =
      let linked := (cache.placed ⟨key, value, weight, none, none⟩).linkNewest
        cache.freeSlot.1
      { linked with
        index := linked.index.insert key cache.freeSlot.1
        weight := linked.weight + weight } := by
  unfold LinkedCache.insertNew placed freeSlot
  cases cache.vacant with
  | cons slot vacant => rfl
  | nil =>
      have hpush (entry : Option (LinkedEntry κ ν)) :
          (cache.slots.push none).setIfInBounds cache.slots.size entry =
            cache.slots.push entry := by
        grind
      simp only [hpush]

theorem linkNewest_with (cache : LinkedCache κ ν) (slot : Nat)
    (index : Std.HashMap κ Nat) (weight : Nat) :
    { cache.linkNewest slot with index, weight } =
      LinkedCache.linkNewest { cache with index, weight } slot := by
  unfold linkNewest
  cases cache.newest <;> rfl

theorem placed_keeps (cache : LinkedCache κ ν) (entry : LinkedEntry κ ν) :
    (cache.placed entry).capacity = cache.capacity ∧
      (cache.placed entry).newest = cache.newest ∧
      (cache.placed entry).oldest = cache.oldest ∧
      (cache.placed entry).weight = cache.weight ∧
      (cache.placed entry).index = cache.index := by
  unfold placed freeSlot
  cases cache.vacant with
  | cons slot vacant => exact ⟨rfl, rfl, rfl, rfl, rfl⟩
  | nil => exact ⟨rfl, rfl, rfl, rfl, rfl⟩

theorem insertNew_eq_linkNewest (cache : LinkedCache κ ν) (key : κ) (value : ν)
    (weight : Nat) :
    cache.insertNew key value weight =
      LinkedCache.linkNewest
        { cache.placed ⟨key, value, weight, none, none⟩ with
          index := cache.index.insert key cache.freeSlot.1
          weight := cache.weight + weight } cache.freeSlot.1 := by
  obtain ⟨-, -, -, hweight, hindex⟩ :=
    cache.placed_keeps ⟨key, value, weight, none, none⟩
  have hsame := sameHoldings_linkNewest
    (cache.placed ⟨key, value, weight, none, none⟩) cache.freeSlot.1
  rw [← linkNewest_with, insertNew_eq_placed]
  simp only [hsame.index, hsame.weight, hindex, hweight]

theorem Filled.freeSlot_lt (h : cache.Filled path) :
    cache.freeSlot.1 < cache.freeSlot.2.slots.size := by
  unfold LinkedCache.freeSlot
  cases hvacant : cache.vacant with
  | cons slot vacant =>
      exact ((h.mem_vacant slot).1 (hvacant ▸ List.mem_cons_self)).1
  | nil => simp

theorem Filled.entryAt?_freeSlot (h : cache.Filled path) :
    cache.entryAt? cache.freeSlot.1 = none := by
  unfold LinkedCache.freeSlot
  cases hvacant : cache.vacant with
  | cons slot vacant =>
      exact Option.map_eq_none_iff.1
        ((h.mem_vacant slot).1 (hvacant ▸ List.mem_cons_self)).2
  | nil => simp [entryAt?]

theorem Filled.entryAt?_placed (h : cache.Filled path)
    (entry : LinkedEntry κ ν) (other : Nat) :
    (cache.placed entry).entryAt? other =
      if other = cache.freeSlot.1 then some entry
      else cache.entryAt? other := by
  have hfree (other : Nat) :
      cache.freeSlot.2.entryAt? other = cache.entryAt? other := by
    unfold LinkedCache.freeSlot
    cases cache.vacant with
    | cons slot vacant => rfl
    | nil =>
        rw [entryAt?, join_push]
        split
        · rename_i heq
          simp [heq, entryAt?]
        · rfl
  rw [← hfree other]
  exact join_setIfInBounds (.inl h.freeSlot_lt) other

theorem Filled.vacant_placed (h : cache.Filled path)
    (entry : LinkedEntry κ ν) :
    (cache.placed entry).vacant.Nodup ∧
      ∀ other, other ∈ (cache.placed entry).vacant ↔
        other < (cache.placed entry).slots.size ∧
          (cache.placed entry).entryAt? other = none := by
  have hmem (other : Nat) : other ∈ cache.vacant ↔
      other < cache.slots.size ∧ cache.entryAt? other = none :=
    (h.mem_vacant other).trans (and_congr_right' Option.map_eq_none_iff)
  simp only [h.entryAt?_placed]
  unfold placed LinkedCache.freeSlot
  cases hvacant : cache.vacant with
  | cons slot vacant =>
      obtain ⟨hslot, hnodup⟩ := List.nodup_cons.1 (hvacant ▸ h.vacant_nodup)
      refine ⟨hnodup, fun other => ?_⟩
      have hother := hmem other
      rw [hvacant, List.mem_cons] at hother
      by_cases heq : other = slot
      · simp [heq, hslot]
      · simpa [heq] using hother
  | nil =>
      refine ⟨List.nodup_nil, fun other => ?_⟩
      have hother := hmem other
      rw [hvacant] at hother
      by_cases heq : other = cache.slots.size
      · simp [heq]
      · have hlt : other < cache.slots.size + 1 ↔
            other < cache.slots.size := by
          omega
        simpa [heq, hlt] using hother

theorem Filled.insertNew (h : cache.Filled path) (key : κ) (value : ν)
    (weight : Nat) :
    ∃ slot, cache.held? slot = none ∧
      Filled (cache.insertNew key value weight) (slot :: path) ∧
      (cache.insertNew key value weight).capacity = cache.capacity ∧
      (cache.insertNew key value weight).index = cache.index.insert key slot ∧
      ∀ other, (cache.insertNew key value weight).held? other =
        if other = slot then some ⟨key, value, weight⟩
        else cache.held? other := by
  let entry : LinkedEntry κ ν := ⟨key, value, weight, none, none⟩
  obtain ⟨hcapacity, hnewest, holdest, -⟩ := cache.placed_keeps entry
  obtain ⟨hnodup, hvacant⟩ := h.vacant_placed entry
  let counted : LinkedCache κ ν :=
    { cache.placed entry with
      index := cache.index.insert key cache.freeSlot.1
      weight := cache.weight + weight }
  have hcounted : cache.insertNew key value weight =
      counted.linkNewest cache.freeSlot.1 :=
    cache.insertNew_eq_linkNewest key value weight
  have hempty : cache.held? cache.freeSlot.1 = none :=
    Option.map_eq_none_iff.2 h.entryAt?_freeSlot
  have hfresh : cache.freeSlot.1 ∉ path := fun hslot => by
    obtain ⟨found, hfound⟩ := h.exists_held hslot
    rw [hempty] at hfound
    cases hfound
  have hsame := sameHoldings_linkNewest counted cache.freeSlot.1
  rw [hcounted]
  refine ⟨cache.freeSlot.1, hempty, ?_, hsame.capacity.trans hcapacity,
    hsame.index, fun other => ?_⟩
  · refine h.linkNewest hfresh (h.entryAt?_placed entry) hnewest holdest hnodup
      (fun other => ?_) rfl
    rw [held?, Option.map_eq_none_iff]
    exact hvacant other
  · rw [hsame.held?, held?]
    change ((cache.placed entry).entryAt? other).map _ = _
    rw [h.entryAt?_placed]
    split <;> rfl

/-! ## Storing and evicting -/

def stored (cache : LinkedCache κ ν) (key : κ) (value : ν) (weight : Nat) :
    LinkedCache κ ν :=
  match cache.index[key]? with
  | some slot => cache.overwrite slot value weight
  | none => cache.insertNew key value weight

theorem put_of_le (key : κ) (value : ν) {weight : Nat}
    (h : weight ≤ cache.capacity) :
    cache.put key value weight =
      evictExcess [] (cache.stored key value weight).size
        (cache.stored key value weight) := by
  unfold LinkedCache.put
  rw [if_neg (Nat.not_lt.2 h)]
  rfl

/-- Storing an entry puts it in front of the entries of all other keys. -/
theorem Consistent.stored [DecidableEq κ] [LawfulBEq κ]
    (h : cache.Consistent path) (key : κ) (value : ν)
    (weight : Nat) :
    ∃ path', (cache.stored key value weight).Consistent path' ∧
      (cache.stored key value weight).orderAlong path' =
        ⟨cache.capacity, ⟨key, value, weight⟩ ::
          (cache.orderAlong path).others key⟩ := by
  cases hindex : cache.index[key]? with
  | some slot =>
      obtain ⟨before, after, entry, rfl, hentry, rfl⟩ := h.split_of_some hindex
      obtain ⟨old, hold, rfl⟩ := Option.map_eq_some_iff.1 hentry
      have hstored : cache.stored old.key value weight =
          cache.overwrite slot value weight := by
        simp [LinkedCache.stored, hindex]
      rw [hstored, (h.find?_of_split hentry).2]
      exact ⟨_, h.overwrite value weight hold⟩
  | none =>
      have hstored : cache.stored key value weight =
          cache.insertNew key value weight := by
        simp [LinkedCache.stored, hindex]
      obtain ⟨slot, hempty, hfilled, hsame, hinsert, hheld⟩ :=
        h.filled.insertNew key value weight
      have hfresh : slot ∉ path :=
        (List.nodup_cons.1 hfilled.threaded.nodup).1
      have hrest : path.filterMap (cache.insertNew key value weight).held? =
          path.filterMap cache.held? := by
        apply List.filterMap_congr
        intro other ho
        rw [hheld, if_neg (ne_of_mem_of_not_mem ho hfresh)]
      rw [hstored]
      refine ⟨slot :: path,
        ⟨hfilled, h.indexed.insert hindex hempty hinsert hheld⟩, ?_⟩
      rw [(h.find?_of_none hindex).2, orderAlong, hsame, List.filterMap_cons,
        hheld, if_pos rfl, hrest]

theorem Consistent.evictOldest [LawfulBEq κ] {last : Nat}
    (h : cache.Consistent (path ++ [last])) :
    ∃ entry cache', cache.evictOldest = (some entry.pair, cache') ∧
      (path ++ [last]).filterMap cache.held? =
        path.filterMap cache.held? ++ [entry] ∧
      cache'.Consistent path ∧
      cache'.orderAlong path =
        ⟨cache.capacity, path.filterMap cache.held?⟩ := by
  have holdest : cache.oldest = some last := by
    rw [h.filled.threaded.oldest, List.getLast?_concat]
  obtain ⟨entry, cache', hdetach, hentry, hfilled, hindex, hcapacity, hheld⟩ :=
    h.filled.detach
  have hfresh : last ∉ path := fun hmem =>
    List.disjoint_of_nodup_append h.filled.threaded.nodup hmem (by simp)
  have hrest : path.filterMap cache'.held? = path.filterMap cache.held? := by
    refine List.filterMap_congr fun other ho => ?_
    rw [hheld, if_neg (ne_of_mem_of_not_mem ho hfresh)]
  have hindexed : Indexed { cache' with index := cache'.index.erase entry.key }
      (path ++ []) := by
    refine h.indexed.erase hentry ?_ hheld
    rw [hindex]
  rw [List.append_nil] at hfilled hindexed
  refine ⟨⟨entry.key, entry.value, entry.weight⟩, _, ?_, ?_,
    ⟨hfilled.withIndex _, hindexed⟩, ?_⟩
  · simp only [LinkedCache.evictOldest, holdest, hdetach]
    rfl
  · simp [List.filterMap_append, hentry]
  · rw [orderAlong, ← hrest, ← hcapacity]
    rfl

end TieredCache.LinkedCache
