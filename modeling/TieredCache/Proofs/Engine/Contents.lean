import Mathlib
import TieredCache.Engine.Pool
import TieredCache.Proofs.Engine.Tier
import TieredCache.Proofs.Recency.Refinement

/-!
# What a pool holds

The entries in RAM and the items below it are together the contents of a pool,
and no key is in them twice.  An operation leads from the contents to a target:
the pool holds the target afterwards, apart from what the non-volatile tier
refused, and nothing is refused when one of the tiers has room for all of it.
-/

namespace TieredCache.Pool

open RecencyOrder (totalWeight)

variable {pool next : Pool} {order : RecencyOrder Bytes Bytes}
  {front back : List (WeightedEntry Bytes Bytes)} {key value : Bytes}

def contents (pool : Pool) (order : RecencyOrder Bytes Bytes) : Ledger Bytes :=
  order.pairs ++ pool.nvm.ledger

/-- The invariant of a pool whose RAM is in an order of use. -/
structure Holds (pool : Pool) (order : RecencyOrder Bytes Bytes) : Prop where
  ram : pool.ram.Keeps order
  capacity : order.capacity = pool.ramBytes
  weights : ∀ entry ∈ order.entries,
    entry.weight = entrySize entry.key entry.value
  fits : order.weight ≤ order.capacity
  nvm : pool.nvm.Sound
  raisable : ∀ pair ∈ pool.nvm.ledger, entrySize pair.1 pair.2 ≤ pool.ramBytes
  distinct : (pool.contents order).keys.Nodup

/-- A pool comes to hold a target, apart from what was dropped on the way. -/
structure Settles (pool next : Pool) (order : RecencyOrder Bytes Bytes)
    (target : Ledger Bytes) (departures : List Departure) : Prop where
  holds : next.Holds order
  ramBytes : next.ramBytes = pool.ramBytes
  nvmCapacity : next.nvm.capacity = pool.nvm.capacity
  settled : ∃ lost : Ledger Bytes, droppedKeys departures = lost.keys ∧
    (next.contents order ++ lost).Perm target ∧
    (target.size ≤ max pool.ramBytes pool.nvm.capacity → lost = [])

theorem holds_empty (ramBytes nvmBytes : Nat) :
    (empty ramBytes nvmBytes).Holds (.empty ramBytes) := by
  have hcontents :
      (empty ramBytes nvmBytes).contents (.empty ramBytes) = [] := by
    simp [contents, empty, RecencyOrder.pairs, RecencyOrder.empty,
      NvmTier.ledger_empty]
  refine ⟨LinkedCache.keeps_empty ramBytes, rfl, ?_, Nat.zero_le _,
    NvmTier.sound_empty nvmBytes, ?_, ?_⟩
  · simp [RecencyOrder.empty]
  · simp [empty, NvmTier.ledger_empty]
  · rw [hcontents]
    exact List.nodup_nil

/-! ## Sizes -/

theorem size_pairs {entries : List (WeightedEntry Bytes Bytes)}
    (h : ∀ entry ∈ entries, entry.weight = entrySize entry.key entry.value) :
    Ledger.size (entries.map WeightedEntry.pair) = totalWeight entries := by
  induction entries with
  | nil => rfl
  | cons entry rest ih =>
      rw [List.map_cons, WeightedEntry.pair, Ledger.size_cons,
        ih fun other ho => h other (List.mem_cons_of_mem _ ho), totalWeight,
        h entry List.mem_cons_self]

theorem weight_le_of_mem {entries : List (WeightedEntry Bytes Bytes)}
    {entry : WeightedEntry Bytes Bytes} (h : entry ∈ entries) :
    entry.weight ≤ totalWeight entries := by
  obtain ⟨front, back, rfl⟩ := List.append_of_mem h
  simp only [RecencyOrder.totalWeight_append, totalWeight]
  omega

/-! ## Keys and values -/

theorem erase_contents (pool : Pool) (order : RecencyOrder Bytes Bytes)
    (key : Bytes) :
    (pool.contents order).erase key =
      (order.others key).map WeightedEntry.pair ++
        pool.nvm.ledger.erase key := by
  rw [RecencyOrder.pairs_others, contents, Ledger.erase_append]
  rfl

theorem value?_contents (pool : Pool) (order : RecencyOrder Bytes Bytes)
    (key : Bytes) :
    (pool.contents order).value? key =
      ((order.find? key).map WeightedEntry.value).or
        pool.nvm.items[key]? := by
  rw [contents, Ledger.value?_append, NvmTier.value?_ledger, Ledger.value?,
    RecencyOrder.pairs, List.find?_map, Option.map_map]
  rfl

theorem Holds.keys_nodup (h : pool.Holds order) :
    (order.entries.map WeightedEntry.key).Nodup :=
  h.ram.keys_nodup

/-! ## One tier alone -/

theorem Holds.reorder (h : pool.Holds order)
    {ram : LinkedCache Bytes Bytes} {order' : RecencyOrder Bytes Bytes}
    (hram : ram.Keeps order') (hcapacity : order'.capacity = order.capacity)
    (hentries : order'.entries.Perm order.entries) :
    Pool.Holds { pool with ram } order' ∧
      (Pool.contents { pool with ram } order').Perm (pool.contents order) := by
  have hcontents : (Pool.contents { pool with ram } order').Perm
      (pool.contents order) :=
    (hentries.map WeightedEntry.pair).append_right _
  refine ⟨⟨hram, hcapacity.trans h.capacity, fun entry hentry => ?_, ?_, h.nvm,
    h.raisable, (hcontents.map Prod.fst).nodup_iff.2 h.distinct⟩, hcontents⟩
  · exact h.weights entry (hentries.mem_iff.1 hentry)
  · rw [RecencyOrder.weight, RecencyOrder.totalWeight_perm hentries, hcapacity]
    exact h.fits

theorem Holds.of_get_none (h : pool.Holds order)
    {ram : LinkedCache Bytes Bytes} (hget : pool.ram.get key = (none, ram)) :
    Pool.Holds { pool with ram } order := by
  obtain ⟨hvalue, hram⟩ := h.ram.get key
  rw [hget] at hvalue hram
  cases hfind : order.find? key with
  | some entry => simp [RecencyOrder.get, hfind] at hvalue
  | none =>
      simp only [RecencyOrder.get, hfind] at hram
      exact (h.reorder hram rfl (.refl _)).1

theorem Holds.takeNvm (h : pool.Holds order) (key : Bytes) :
    let taken : Pool := { pool with nvm := (pool.nvm.take key).2 }
    taken.Holds order ∧ key ∉ taken.nvm.ledger.keys ∧
      (taken.contents order).Perm
        (order.pairs ++ pool.nvm.ledger.erase key) ∧
      ((taken.contents order).erase key).Perm
        ((pool.contents order).erase key) := by
  intro taken
  obtain ⟨-, hsound, hledger, -⟩ := NvmTier.take_spec h.nvm key
  have hcontents : (taken.contents order).Perm
      (order.pairs ++ pool.nvm.ledger.erase key) :=
    hledger.append_left _
  refine ⟨⟨h.ram, h.capacity, h.weights, h.fits, hsound, ?_, ?_⟩, ?_, hcontents,
    ?_⟩
  · intro pair hpair
    exact h.raisable pair (List.mem_of_mem_filter (hledger.mem_iff.1 hpair))
  · refine (hcontents.map Prod.fst).nodup_iff.2 (h.distinct.sublist ?_)
    exact (List.filter_sublist.append_left _).map Prod.fst
  · intro hmem
    have hmem' := ((hledger.map Prod.fst).mem_iff).1 hmem
    exact (Ledger.mem_keys_erase.1 hmem').2 rfl
  · have herased := hledger.filter fun pair => pair.1 ≠ key
    change (Ledger.erase _ key).Perm (Ledger.erase _ key) at herased
    rw [Ledger.erase_erase] at herased
    rw [erase_contents, erase_contents]
    exact herased.append_left _

/-! ## Raising an entry -/

theorem mem_of_others (h : order.others key = front ++ back)
    {entry : WeightedEntry Bytes Bytes} (hentry : entry ∈ front ++ back) :
    entry ∈ order.entries :=
  (RecencyOrder.mem_others.1 (h ▸ hentry)).1

theorem Holds.entrySize_le (h : pool.Holds order)
    {entry : WeightedEntry Bytes Bytes} (hentry : entry ∈ order.entries) :
    entrySize entry.key entry.value ≤ pool.ramBytes :=
  calc entrySize entry.key entry.value
      = entry.weight := (h.weights entry hentry).symm
    _ ≤ order.weight := weight_le_of_mem hentry
    _ ≤ pool.ramBytes := h.capacity ▸ h.fits

theorem erase_of_absent (pool : Pool) (h : order.others key = front ++ back)
    (habsent : key ∉ pool.nvm.ledger.keys) :
    (pool.contents order).erase key =
      front.map WeightedEntry.pair ++
        (back.map WeightedEntry.pair ++ pool.nvm.ledger) := by
  rw [erase_contents, h, Ledger.erase_of_notMem habsent, List.map_append,
    List.append_assoc]

/-- When one of the tiers has room for all that there is to be, the tier below
has room for what is displaced. -/
theorem Holds.room_below (h : pool.Holds order)
    (hothers : order.others key = front ++ back)
    (habsent : key ∉ pool.nvm.ledger.keys)
    (hroomy : entrySize key value + totalWeight (order.others key) ≤
      order.capacity → back = [])
    (hfit : ((pool.contents order).set key value).size ≤
      max pool.ramBytes pool.nvm.capacity) :
    pool.nvm.bytes + Ledger.size (back.map WeightedEntry.pair) ≤
      pool.nvm.capacity := by
  have hfront : Ledger.size (front.map WeightedEntry.pair) =
      totalWeight front := by
    apply size_pairs
    intro entry hentry
    exact h.weights entry
      (mem_of_others hothers (List.mem_append_left _ hentry))
  have hback : Ledger.size (back.map WeightedEntry.pair) =
      totalWeight back := by
    apply size_pairs
    intro entry hentry
    exact h.weights entry
      (mem_of_others hothers (List.mem_append_right _ hentry))
  rw [Ledger.set, erase_of_absent pool hothers habsent] at hfit
  simp only [Ledger.size_cons, Ledger.size_append, hfront, hback,
    ← h.nvm.bytes] at hfit
  rcases le_max_iff.1 hfit with hram | hnvm
  · have hnone : back = [] := by
      apply hroomy
      rw [hothers, RecencyOrder.totalWeight_append, h.capacity]
      omega
    rw [hnone]
    exact h.nvm.fits
  · rw [hback]
    omega

theorem Holds.nodup_displaced (h : pool.Holds order)
    (habsent : key ∉ pool.nvm.ledger.keys)
    (hsize : entrySize key value ≤ pool.ramBytes) :
    (Ledger.keys ((pool.ram.put key value (entrySize key value)).1 ++
      pool.nvm.ledger)).Nodup := by
  obtain ⟨kept, lost, hothers, hput, -, -⟩ :=
    order.put_spec key value (h.capacity ▸ hsize)
  have hbelow : (lost.reverse.map WeightedEntry.pair ++
      pool.nvm.ledger).Perm
      (lost.map WeightedEntry.pair ++ pool.nvm.ledger) :=
    ((List.reverse_perm lost).map _).append_right _
  have herased : ((pool.contents order).erase key).keys.Nodup :=
    Ledger.nodup_erase h.distinct
  rw [erase_of_absent pool hothers habsent, Ledger.keys_append] at herased
  rw [(h.ram.put key value (entrySize key value)).1, hput]
  exact (hbelow.map Prod.fst).nodup_iff.2 herased.of_append_right

/-- An entry that the non-volatile tier does not hold goes to the front of RAM,
and what it displaces goes below. -/
theorem Holds.raise (h : pool.Holds order)
    (habsent : key ∉ pool.nvm.ledger.keys)
    (hsize : entrySize key value ≤ pool.ramBytes) :
    ∃ order', order'.find? key = some ⟨key, value, entrySize key value⟩ ∧
      pool.Settles (pool.raise key value).2 order'
        ((pool.contents order).set key value) (pool.raise key value).1 := by
  obtain ⟨kept, lost, hothers, hput, hfits, hroomy⟩ :=
    order.put_spec key value (h.capacity ▸ hsize)
  obtain ⟨hevicted, hram⟩ := h.ram.put key value (entrySize key value)
  have hnodup := h.nodup_displaced habsent hsize
  rw [hput] at hevicted hram
  rw [hevicted] at hnodup
  -- The contents without the key, and what is to go below among them.
  have hrest := erase_of_absent pool hothers habsent
  have hreversed : (lost.reverse.map WeightedEntry.pair).Perm
      (lost.map WeightedEntry.pair) :=
    (List.reverse_perm lost).map _
  have hbelow := hreversed.append_right pool.nvm.ledger
  obtain ⟨gone, hdropped, hreceived, hsound, hnvmCapacity, hroom⟩ :=
    NvmTier.receive_spec h.nvm _ hnodup
  let next : Pool :=
    { pool with
      ram := (pool.ram.put key value (entrySize key value)).2
      nvm := (pool.nvm.receive (lost.reverse.map WeightedEntry.pair)).1 }
  let order' : RecencyOrder Bytes Bytes :=
    { order with entries := ⟨key, value, entrySize key value⟩ :: kept }
  have hraise : pool.raise key value =
      ((pool.nvm.receive (lost.reverse.map WeightedEntry.pair)).2, next) := by
    simp only [Pool.raise, hevicted, next]
  have hsettled : (next.contents order' ++ gone).Perm
      ((pool.contents order).set key value) := by
    have hmoved :=
      (hreceived.trans hbelow).append_left (kept.map WeightedEntry.pair)
    rw [← List.append_assoc] at hmoved
    rw [Ledger.set, hrest]
    exact hmoved.cons _
  rw [hraise]
  refine ⟨order', by simp [order', RecencyOrder.find?],
    ⟨⟨hram, h.capacity, ?_, hfits, hsound, ?_, ?_⟩, rfl, hnvmCapacity, gone,
      hdropped, hsettled, ?_⟩⟩
  · intro entry hentry
    rcases List.mem_cons.1 hentry with rfl | hkept
    · rfl
    · exact h.weights entry
        (mem_of_others hothers (List.mem_append_left _ hkept))
  · rintro ⟨other, stored⟩ hpair
    rcases List.mem_append.1 ((hreceived.trans hbelow).mem_iff.1
      (List.mem_append_left gone hpair)) with hlost | hnvm
    · obtain ⟨entry, hentry, hpair⟩ := List.mem_map.1 hlost
      obtain ⟨rfl, rfl⟩ := Prod.mk.inj hpair
      exact h.entrySize_le
        (mem_of_others hothers (List.mem_append_right _ hentry))
    · exact h.raisable _ hnvm
  · have hall := (hsettled.map Prod.fst).nodup_iff.2
      (Ledger.nodup_set h.distinct)
    rw [List.map_append] at hall
    exact hall.of_append_left
  · intro hfit
    apply hroom
    rw [Ledger.size_perm hreversed]
    exact h.room_below hothers habsent hroomy hfit

/-! ## Operations -/

theorem Settles.congr {pool' : Pool} {target target' : Ledger Bytes}
    {departures : List Departure}
    (h : pool.Settles next order target departures)
    (hramBytes : pool.ramBytes = pool'.ramBytes)
    (hcapacity : pool.nvm.capacity = pool'.nvm.capacity)
    (htarget : target.Perm target') :
    pool'.Settles next order target' departures := by
  obtain ⟨hholds, hram, hnvm, lost, hdropped, hsettled, hroom⟩ := h
  refine ⟨hholds, hram.trans hramBytes, hnvm.trans hcapacity, lost, hdropped,
    hsettled.trans htarget, fun hfit => hroom ?_⟩
  rwa [hramBytes, hcapacity, Ledger.size_perm htarget]

theorem Settles.of_perm {target : Ledger Bytes} (hholds : next.Holds order)
    (hramBytes : next.ramBytes = pool.ramBytes)
    (hcapacity : next.nvm.capacity = pool.nvm.capacity)
    (hcontents : (next.contents order).Perm target) :
    pool.Settles next order target [] :=
  ⟨hholds, hramBytes, hcapacity, [], rfl, by rwa [List.append_nil],
    fun _ => rfl⟩

theorem Holds.store (h : pool.Holds order)
    (hsize : entrySize key value ≤ pool.ramBytes) :
    ∃ order', order'.find? key = some ⟨key, value, entrySize key value⟩ ∧
      pool.Settles (pool.store key value).2 order'
        ((pool.contents order).set key value) (pool.store key value).1 := by
  obtain ⟨htaken, habsent, -, herased⟩ := h.takeNvm key
  obtain ⟨-, -, -, hcapacity⟩ := NvmTier.take_spec h.nvm key
  obtain ⟨order', hfind, hsettles⟩ := htaken.raise habsent hsize
  exact ⟨order', hfind, hsettles.congr rfl hcapacity (herased.cons _)⟩

theorem Holds.find (h : pool.Holds order) (key : Bytes) :
    (pool.find key).1.value? = (pool.contents order).value? key ∧
      ∃ order', (order'.find? key).map WeightedEntry.value =
          (pool.find key).1.value? ∧
        pool.Settles (pool.find key).2.2 order' (pool.contents order)
          (pool.find key).2.1 := by
  obtain ⟨hvalue, hram⟩ := h.ram.get key
  rw [value?_contents]
  rcases hget : pool.ram.get key with ⟨found, ram⟩
  rw [hget] at hvalue hram
  cases hfind : order.find? key with
  | some entry =>
      simp only [RecencyOrder.get, hfind] at hvalue hram
      obtain ⟨hholds, hcontents⟩ := h.reorder hram rfl
        (RecencyOrder.perm_cons_others h.keys_nodup hfind)
      have hkey : entry.key = key := by simpa using List.find?_some hfind
      simp only [Pool.find, hget, hvalue]
      refine ⟨rfl, _, ?_, .of_perm hholds rfl rfl hcontents⟩
      simp [RecencyOrder.find?, hkey, Lookup.value?]
  | none =>
      simp only [RecencyOrder.get, hfind] at hvalue hram
      obtain ⟨hholds, -⟩ := h.reorder hram rfl (.refl _)
      obtain ⟨htaken, habsent, hcontents, herased⟩ := hholds.takeNvm key
      obtain ⟨hitem, -, -, hcapacity⟩ := NvmTier.take_spec h.nvm key
      rcases htake : pool.nvm.take key with ⟨item, nvm⟩
      simp only [htake] at hitem hcapacity htaken habsent hcontents herased
      cases item with
      | none =>
          simp only [Pool.find, hget, hvalue, htake]
          refine ⟨by rw [← hitem]; rfl, order, by rw [hfind]; rfl,
            .of_perm htaken rfl hcapacity (hcontents.trans ?_)⟩
          have hnone : key ∉ pool.nvm.ledger.keys := by
            rw [← Ledger.value?_eq_none_iff, NvmTier.value?_ledger, ← hitem]
          rw [Ledger.erase_of_notMem hnone]
          rfl
      | some value =>
          simp only [Pool.find, hget, hvalue, htake]
          have hpair : (key, value) ∈ pool.nvm.ledger :=
            NvmTier.mem_ledger.2 hitem.symm
          obtain ⟨order', hfind', hsettles⟩ :=
            htaken.raise habsent (h.raisable _ hpair)
          refine ⟨by rw [← hitem]; rfl, order', by rw [hfind']; rfl,
            hsettles.congr rfl hcapacity ((herased.cons _).trans ?_)⟩
          exact (Ledger.perm_cons_erase h.distinct
            (List.mem_append_right _ hpair)).symm

theorem Holds.remove (h : pool.Holds order) (key : Bytes) :
    (pool.remove key).1 = ((pool.contents order).value? key).isSome ∧
      ∃ order', pool.Settles (pool.remove key).2 order'
        ((pool.contents order).erase key) [] := by
  obtain ⟨hvalue, hram⟩ := h.ram.remove key
  obtain ⟨hitem, hsound, hledger, hcapacity⟩ := NvmTier.take_spec h.nvm key
  have hremove : pool.remove key =
      ((pool.ram.remove key).1.isSome || (pool.nvm.take key).1.isSome,
        { pool with
          ram := (pool.ram.remove key).2, nvm := (pool.nvm.take key).2 }) := rfl
  rw [hremove, value?_contents, hvalue, hitem]
  have hcontents : (Pool.contents
      { pool with
        ram := (pool.ram.remove key).2, nvm := (pool.nvm.take key).2 }
      (order.remove key).2).Perm ((pool.contents order).erase key) := by
    rw [erase_contents]
    exact hledger.append_left _
  have hothers := order.totalWeight_others_le key
  refine ⟨?_, (order.remove key).2, .of_perm ⟨hram, h.capacity,
    fun entry hentry => ?_, hothers.trans h.fits, hsound, fun pair hpair => ?_,
    (hcontents.map Prod.fst).nodup_iff.2 (Ledger.nodup_erase h.distinct)⟩ rfl
    hcapacity hcontents⟩
  · rw [Option.isSome_or]
    rfl
  · exact h.weights entry (RecencyOrder.mem_others.1 hentry).1
  · exact h.raisable pair (List.mem_of_mem_filter (hledger.mem_iff.1 hpair))

end TieredCache.Pool
