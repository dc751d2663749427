import Mathlib
import TieredCache.Recency.Linked
import TieredCache.Recency.Order

/-!
# Paths through linked slots

The occupied slots of a linked cache form a path from the newest to the oldest.
A segment of it is linked in order between a slot newer than all of it and one
older than all of it.  Unlinking takes one slot out of the path, and linking
puts one in front of it; neither changes what the slots hold.
-/

namespace TieredCache.LinkedCache

variable {κ ν : Type}

/-! ## Linked segments -/

/-- The newer and the older neighbour of each slot are those that the path and
the slots around it give it. -/
def Chained (linksOf : Nat → Option (Option Nat × Option Nat)) :
    Option Nat → List Nat → Option Nat → Prop
  | _, [], _ => True
  | newer, slot :: rest, older =>
      linksOf slot = some (newer, rest.head?.or older) ∧
        Chained linksOf (some slot) rest older

variable {linksOf : Nat → Option (Option Nat × Option Nat)}
  {newer older : Option Nat} {path : List Nat}

theorem chained_append {front back : List Nat} :
    Chained linksOf newer (front ++ back) older ↔
      Chained linksOf newer front (back.head?.or older) ∧
        Chained linksOf (front.getLast?.or newer) back older := by
  induction front generalizing newer with
  | nil => simp [Chained]
  | cons slot rest ih =>
      have hlast : (slot :: rest).getLast?.or newer =
          rest.getLast?.or (some slot) := by
        rw [List.getLast?_cons]
        cases rest.getLast? <;> rfl
      rw [List.cons_append, Chained, Chained, ih, hlast, List.head?_append,
        Option.or_assoc, and_assoc]

theorem Chained.congr {linksOf' : Nat → Option (Option Nat × Option Nat)}
    (h : Chained linksOf newer path older)
    (hsame : ∀ slot ∈ path, linksOf' slot = linksOf slot) :
    Chained linksOf' newer path older := by
  induction path generalizing newer with
  | nil => trivial
  | cons slot rest ih =>
      obtain ⟨hlinks, hrest⟩ := h
      refine ⟨?_, ih hrest fun other ho => hsame other (by simp [ho])⟩
      rw [hsame slot (by simp), hlinks]

theorem Chained.isSome (h : Chained linksOf newer path older) {slot : Nat}
    (hslot : slot ∈ path) : (linksOf slot).isSome := by
  induction path generalizing newer with
  | nil => cases hslot
  | cons first rest ih =>
      obtain ⟨hlinks, hrest⟩ := h
      rcases List.mem_cons.1 hslot with rfl | hslot
      · rw [hlinks]
        rfl
      · exact ih hrest hslot

/-! ## Setting links -/

variable [BEq κ] [Hashable κ]

def links? (cache : LinkedCache κ ν) (slot : Nat) :
    Option (Option Nat × Option Nat) :=
  (cache.entryAt? slot).map fun entry => (entry.newer, entry.older)

theorem entryAt?_modifyEntry (cache : LinkedCache κ ν) (slot : Nat)
    (change : LinkedEntry κ ν → LinkedEntry κ ν) (other : Nat) :
    (cache.modifyEntry slot change).entryAt? other =
      if other = slot then (cache.entryAt? other).map change
      else cache.entryAt? other := by
  simp only [modifyEntry, entryAt?, Array.getElem?_modify]
  by_cases h : slot = other
  · simp only [h, if_true]
    cases cache.slots[other]? <;> simp
  · simp [h, Ne.symm h]

theorem lt_slotCount_of_isSome {cache : LinkedCache κ ν} {slot : Nat}
    (h : (cache.entryAt? slot).isSome) : slot < cache.slots.size := by
  by_contra hout
  rw [entryAt?, Array.getElem?_eq_none (Nat.le_of_not_lt hout)] at h
  cases h

theorem links?_setNewer (cache : LinkedCache κ ν) (slot newer : Option Nat)
    (other : Nat) :
    (cache.setNewer slot newer).links? other =
      if slot = some other then
        (cache.links? other).map fun links => (newer, links.2)
      else cache.links? other := by
  cases slot with
  | none => simp [setNewer, links?, entryAt?]
  | some slot =>
      simp only [setNewer, links?, entryAt?_modifyEntry, Option.some.injEq,
        eq_comm (a := slot)]
      split <;> simp [Function.comp_def]

theorem links?_setOlder (cache : LinkedCache κ ν) (slot older : Option Nat)
    (other : Nat) :
    (cache.setOlder slot older).links? other =
      if slot = some other then
        (cache.links? other).map fun links => (links.1, older)
      else cache.links? other := by
  cases slot with
  | none => simp [setOlder, links?, entryAt?]
  | some slot =>
      simp only [setOlder, links?, entryAt?_modifyEntry, Option.some.injEq,
        eq_comm (a := slot)]
      split <;> simp [Function.comp_def]

theorem newest_setOlder (cache : LinkedCache κ ν) (slot older : Option Nat) :
    (cache.setOlder slot older).newest =
      if slot = none then older else cache.newest := by
  cases slot <;> rfl

theorem oldest_setNewer (cache : LinkedCache κ ν) (slot newer : Option Nat) :
    (cache.setNewer slot newer).oldest =
      if slot = none then newer else cache.oldest := by
  cases slot <;> rfl

@[simp] theorem newest_setNewer (cache : LinkedCache κ ν)
    (slot newer : Option Nat) :
    (cache.setNewer slot newer).newest = cache.newest := by
  cases slot <;> rfl

@[simp] theorem oldest_setOlder (cache : LinkedCache κ ν)
    (slot older : Option Nat) :
    (cache.setOlder slot older).oldest = cache.oldest := by
  cases slot <;> rfl

theorem Chained.setOlder {cache : LinkedCache κ ν}
    (h : Chained cache.links? newer path older) (hnodup : path.Nodup)
    (older' : Option Nat) :
    Chained (cache.setOlder path.getLast? older').links? newer path
      older' := by
  rcases List.eq_nil_or_concat' path with rfl | ⟨front, last, rfl⟩
  · trivial
  · rw [chained_append] at h ⊢
    obtain ⟨hfront, hlast, -⟩ := h
    rw [List.getLast?_concat]
    refine ⟨hfront.congr fun slot hslot => ?_, ?_, trivial⟩
    · have hne : last ≠ slot := by
        rintro rfl
        exact (List.disjoint_of_nodup_append hnodup) hslot (by simp)
      rw [links?_setOlder, if_neg (by simpa using hne)]
    · rw [links?_setOlder, if_pos rfl, hlast]
      rfl

theorem Chained.setNewer {cache : LinkedCache κ ν}
    (h : Chained cache.links? newer path older) (hnodup : path.Nodup)
    (newer' : Option Nat) :
    Chained (cache.setNewer path.head? newer').links? newer' path
      older := by
  cases path with
  | nil => trivial
  | cons first rest =>
      obtain ⟨hfirst, hrest⟩ := h
      refine ⟨?_, hrest.congr fun slot hslot => ?_⟩
      · rw [links?_setNewer, List.head?_cons, if_pos rfl, hfirst]
        rfl
      · have hne : first ≠ slot := by
          rintro rfl
          exact (List.nodup_cons.1 hnodup).1 hslot
        rw [links?_setNewer, List.head?_cons, if_neg (by simpa using hne)]

/-! ## What links leave alone -/

def held? (cache : LinkedCache κ ν) (slot : Nat) :
    Option (WeightedEntry κ ν) :=
  (cache.entryAt? slot).map fun entry => ⟨entry.key, entry.value, entry.weight⟩

theorem held?_of_entryAt? {cache : LinkedCache κ ν} {slot : Nat}
    {entry : LinkedEntry κ ν} (h : cache.entryAt? slot = some entry) :
    cache.held? slot = some ⟨entry.key, entry.value, entry.weight⟩ := by
  rw [held?, h]
  rfl

/-- Two caches that differ at most in their links. -/
structure SameHoldings (first second : LinkedCache κ ν) : Prop where
  capacity : first.capacity = second.capacity
  weight : first.weight = second.weight
  vacant : first.vacant = second.vacant
  index : first.index = second.index
  slotCount : first.slots.size = second.slots.size
  held? : ∀ slot, first.held? slot = second.held? slot

theorem SameHoldings.refl (cache : LinkedCache κ ν) :
    SameHoldings cache cache :=
  ⟨rfl, rfl, rfl, rfl, rfl, fun _ => rfl⟩

theorem SameHoldings.trans {first second third : LinkedCache κ ν}
    (h : SameHoldings first second) (h' : SameHoldings second third) :
    SameHoldings first third :=
  ⟨h.capacity.trans h'.capacity, h.weight.trans h'.weight,
    h.vacant.trans h'.vacant, h.index.trans h'.index,
    h.slotCount.trans h'.slotCount,
    fun slot => (h.held? slot).trans (h'.held? slot)⟩

theorem SameHoldings.isSome_entryAt? {first second : LinkedCache κ ν}
    (h : SameHoldings first second) (slot : Nat) :
    (first.entryAt? slot).isSome = (second.entryAt? slot).isSome := by
  have hheld := congrArg Option.isSome (h.held? slot)
  rwa [LinkedCache.held?, LinkedCache.held?, Option.isSome_map,
    Option.isSome_map] at hheld

theorem sameHoldings_modifyEntry (cache : LinkedCache κ ν) (slot : Nat)
    (change : LinkedEntry κ ν → LinkedEntry κ ν)
    (hkey : ∀ entry, (change entry).key = entry.key)
    (hvalue : ∀ entry, (change entry).value = entry.value)
    (hweight : ∀ entry, (change entry).weight = entry.weight) :
    SameHoldings (cache.modifyEntry slot change) cache := by
  refine ⟨rfl, rfl, rfl, rfl, by simp [modifyEntry], fun other => ?_⟩
  rw [held?, held?, entryAt?_modifyEntry]
  split
  · simp [Option.map_map, Function.comp_def, hkey, hvalue, hweight]
  · rfl

theorem sameHoldings_setNewer (cache : LinkedCache κ ν)
    (slot newer : Option Nat) :
    SameHoldings (cache.setNewer slot newer) cache := by
  cases slot with
  | none => exact ⟨rfl, rfl, rfl, rfl, rfl, fun _ => rfl⟩
  | some slot =>
      exact sameHoldings_modifyEntry cache slot _ (fun _ => rfl) (fun _ => rfl)
        (fun _ => rfl)

theorem sameHoldings_setOlder (cache : LinkedCache κ ν)
    (slot older : Option Nat) :
    SameHoldings (cache.setOlder slot older) cache := by
  cases slot with
  | none => exact ⟨rfl, rfl, rfl, rfl, rfl, fun _ => rfl⟩
  | some slot =>
      exact sameHoldings_modifyEntry cache slot _ (fun _ => rfl) (fun _ => rfl)
        (fun _ => rfl)

theorem sameHoldings_linkNewest (cache : LinkedCache κ ν) (slot : Nat) :
    SameHoldings (cache.linkNewest slot) cache := by
  have hlinked := sameHoldings_modifyEntry cache slot
    (fun entry => { entry with newer := none, older := cache.newest })
    (fun _ => rfl) (fun _ => rfl) (fun _ => rfl)
  have hset := (sameHoldings_setNewer (cache.modifyEntry slot fun entry =>
    { entry with newer := none, older := cache.newest }) cache.newest
    (some slot)).trans hlinked
  exact ⟨hset.capacity, hset.weight, hset.vacant, hset.index, hset.slotCount,
    hset.held?⟩

theorem sameHoldings_unlink (cache : LinkedCache κ ν) (slot : Nat) :
    SameHoldings (cache.unlink slot) cache := by
  unfold unlink
  split
  · exact .refl cache
  · exact (sameHoldings_setNewer _ _ _).trans (sameHoldings_setOlder _ _ _)

theorem sameHoldings_touch (cache : LinkedCache κ ν) (slot : Nat) :
    SameHoldings (cache.touch slot) cache := by
  unfold touch
  split
  · exact .refl cache
  · exact (sameHoldings_linkNewest _ _).trans (sameHoldings_unlink _ _)

/-! ## The path of a cache -/

/-- The slots of a path are linked to each other in order, and to nothing
else; its ends are the newest and the oldest. -/
structure Threaded (cache : LinkedCache κ ν) (path : List Nat) : Prop where
  nodup : path.Nodup
  newest : cache.newest = path.head?
  oldest : cache.oldest = path.getLast?
  chained : Chained cache.links? none path none

theorem threaded_empty (capacity : Nat) :
    Threaded (empty capacity : LinkedCache κ ν) [] :=
  ⟨List.nodup_nil, rfl, rfl, trivial⟩

theorem Threaded.congr {cache cache' : LinkedCache κ ν}
    (h : Threaded cache path) (hnewest : cache'.newest = cache.newest)
    (holdest : cache'.oldest = cache.oldest)
    (hlinks : ∀ slot ∈ path, cache'.links? slot = cache.links? slot) :
    Threaded cache' path :=
  ⟨h.nodup, hnewest.trans h.newest, holdest.trans h.oldest,
    h.chained.congr hlinks⟩

theorem Threaded.isSome {cache : LinkedCache κ ν} (h : Threaded cache path)
    {slot : Nat} (hslot : slot ∈ path) : (cache.entryAt? slot).isSome := by
  have hlinks := h.chained.isSome hslot
  rwa [LinkedCache.links?, Option.isSome_map] at hlinks

theorem Threaded.links_of_split {cache : LinkedCache κ ν} {slot : Nat}
    {before after : List Nat} (h : Threaded cache (before ++ slot :: after))
    {entry : LinkedEntry κ ν} (hentry : cache.entryAt? slot = some entry) :
    entry.newer = before.getLast? ∧ entry.older = after.head? := by
  obtain ⟨-, hlinks, -⟩ := chained_append.1 h.chained
  rw [LinkedCache.links?, hentry, Option.map_some, Option.some.injEq,
    Option.or_none, Option.or_none, Prod.mk.injEq] at hlinks
  exact hlinks

theorem Threaded.isSome_of_newest {cache : LinkedCache κ ν}
    (h : Threaded cache path) {slot : Nat} (hslot : cache.newest = some slot) :
    (cache.entryAt? slot).isSome :=
  h.isSome (List.mem_of_head? (h.newest ▸ hslot))

theorem Threaded.unlink {cache : LinkedCache κ ν} {slot : Nat}
    {before after : List Nat} (h : Threaded cache (before ++ slot :: after)) :
    Threaded (cache.unlink slot) (before ++ after) := by
  obtain ⟨entry, hentry⟩ :=
    Option.isSome_iff_exists.1
      (h.isSome (List.mem_append_right before List.mem_cons_self))
  have hlinks := h.links_of_split hentry
  obtain ⟨hnodup, hnewest, holdest, hchained⟩ := h
  obtain ⟨hbefore, -, hafter⟩ := chained_append.1 hchained
  have hunlink : cache.unlink slot =
      (cache.setOlder before.getLast? after.head?).setNewer after.head?
        before.getLast? := by
    simp only [LinkedCache.unlink, hentry, hlinks]
  have hdisjoint := List.disjoint_of_nodup_append hnodup
  have hnodup' : (before ++ after).Nodup :=
    hnodup.sublist ((List.sublist_cons_self slot after).append_left before)
  rw [hunlink]
  refine ⟨hnodup', ?_, ?_, chained_append.2 ⟨?_, ?_⟩⟩
  · rw [newest_setNewer, newest_setOlder, hnewest]
    cases before <;> simp
  · rw [oldest_setNewer, oldest_setOlder, holdest]
    cases after <;> simp
  · rw [Option.or_none]
    refine (hbefore.setOlder hnodup'.of_append_left after.head?).congr
      fun other ho => ?_
    have hne : after.head? ≠ some other := fun hhead =>
      hdisjoint ho (List.mem_cons_of_mem _ (List.mem_of_head? hhead))
    rw [links?_setNewer, if_neg hne]
  · rw [Option.or_none]
    have hframed : Chained (cache.setOlder before.getLast? after.head?).links?
        (some slot) after none := by
      refine hafter.congr fun other ho => ?_
      have hne : before.getLast? ≠ some other := fun hlast =>
        hdisjoint (List.mem_of_getLast? hlast) (List.mem_cons_of_mem _ ho)
      rw [links?_setOlder, if_neg hne]
    exact hframed.setNewer hnodup'.of_append_right before.getLast?

theorem Threaded.linkNewest {cache : LinkedCache κ ν} {slot : Nat}
    (h : Threaded cache path) (hfresh : slot ∉ path)
    (hoccupied : (cache.entryAt? slot).isSome) :
    Threaded (cache.linkNewest slot) (slot :: path) := by
  obtain ⟨hnodup, hnewest, holdest, hchained⟩ := h
  obtain ⟨entry, hentry⟩ := Option.isSome_iff_exists.1 hoccupied
  let linked := cache.modifyEntry slot fun entry =>
    { entry with newer := none, older := cache.newest }
  have hlinks (other : Nat) : (cache.linkNewest slot).links? other =
      (linked.setNewer path.head? (some slot)).links? other := by
    rw [← hnewest]
    rfl
  have hlinked : Chained linked.links? none path none := by
    refine hchained.congr fun other ho => ?_
    have hne : other ≠ slot := fun heq => hfresh (heq ▸ ho)
    rw [LinkedCache.links?, entryAt?_modifyEntry, if_neg hne]
    rfl
  refine ⟨List.nodup_cons.2 ⟨hfresh, hnodup⟩, rfl, ?_, ?_, ?_⟩
  · change (linked.setNewer cache.newest (some slot)).oldest = _
    rw [oldest_setNewer, hnewest, List.getLast?_cons]
    cases path with
    | nil => rfl
    | cons first rest =>
        rw [if_neg (by simp)]
        exact holdest.trans (by rw [List.getLast?_cons]; rfl)
  · have hne : path.head? ≠ some slot := fun hhead =>
      hfresh (List.mem_of_head? hhead)
    rw [hlinks, links?_setNewer, if_neg hne, LinkedCache.links?,
      entryAt?_modifyEntry, if_pos rfl, hentry, hnewest, Option.or_none]
    rfl
  · exact (hlinked.setNewer hnodup (some slot)).congr fun other _ =>
      hlinks other

theorem Threaded.touch {cache : LinkedCache κ ν} {slot : Nat}
    {before after : List Nat} (h : Threaded cache (before ++ slot :: after)) :
    Threaded (cache.touch slot) (slot :: (before ++ after)) := by
  have hfresh : slot ∉ before ++ after :=
    (List.nodup_middle.1 h.nodup).notMem
  unfold LinkedCache.touch
  split
  · rename_i hnewest
    cases before with
    | nil => exact h
    | cons first rest =>
        rw [h.newest] at hnewest
        cases hnewest
        exact absurd (List.mem_append_left after List.mem_cons_self) hfresh
  · refine h.unlink.linkNewest hfresh ?_
    rw [(sameHoldings_unlink cache slot).isSome_entryAt?]
    exact h.isSome (by simp)

end TieredCache.LinkedCache
