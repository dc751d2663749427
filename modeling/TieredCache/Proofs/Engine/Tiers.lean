import Mathlib
import TieredCache.Proofs.Engine.Answers
import TieredCache.Proofs.Engine.Subtractions
import TieredCache.Proofs.Recency.Entries

/-!
# The tiers of a pool in balance

The tiers of a pool share no key, and each counts its bytes exactly and keeps
within its limit.  RAM could take any entry by itself, so that raising one never
hands it back.  This holds after any session with an engine.  No operation that
comes next subtracts more than there is, and the bytes of its pool change by what
it subtracts and by what comes in.
-/

namespace TieredCache

namespace Pool

variable {pool : Pool} {order : RecencyOrder Bytes Bytes} {key value : Bytes}

def Stores (pool : Pool) (key value : Bytes) : Prop :=
  (∃ entry ∈ pool.ram.entries, entry.key = key ∧ entry.value = value) ∨
    pool.nvm.items[key]? = some value

structure Balanced (pool : Pool) : Prop where
  apart : ∀ entry ∈ pool.ram.entries, entry.key ∉ pool.nvm.items
  ramWeight : pool.ram.weight =
    (pool.ram.entries.map fun entry => entrySize entry.key entry.value).sum
  ramFits : pool.ram.weight ≤ pool.ramBytes
  nvmBytes : pool.nvm.bytes =
    (pool.nvm.items.toList.map fun item => entrySize item.1 item.2).sum
  nvmFits : pool.nvm.bytes ≤ pool.nvm.capacity
  raisable : ∀ key value, pool.Stores key value →
    entrySize key value ≤ pool.ramBytes
  raised : ∀ key value, pool.nvm.items[key]? = some value →
    ∀ evicted ∈ (pool.ram.put key value (entrySize key value)).1,
      evicted.1 ≠ key

theorem mem_contents :
    (key, value) ∈ pool.contents order ↔
      (key, value) ∈ order.pairs ∨ pool.nvm.items[key]? = some value := by
  rw [contents, List.mem_append, NvmTier.mem_ledger]

theorem Holds.pairs_perm (h : pool.Holds order) :
    (pool.ram.entries.map fun entry => (entry.key, entry.value)).Perm
      order.pairs := by
  have hentries := h.ram.entries_perm.map WeightedEntry.pair
  rw [List.map_map] at hentries
  exact hentries

theorem Holds.stores_iff (h : pool.Holds order) :
    pool.Stores key value ↔ (key, value) ∈ pool.contents order := by
  rw [mem_contents, ← h.pairs_perm.mem_iff, List.mem_map]
  simp only [Stores, Prod.mk.injEq]

theorem Holds.entrySize_le_of_mem (h : pool.Holds order)
    (hmem : (key, value) ∈ pool.contents order) :
    entrySize key value ≤ pool.ramBytes := by
  rcases List.mem_append.1 hmem with hram | hnvm
  · obtain ⟨entry, hentry, hpair⟩ := List.mem_map.1 hram
    obtain ⟨rfl, rfl⟩ := Prod.mk.inj hpair
    exact h.entrySize_le hentry
  · exact h.raisable _ hnvm

theorem Holds.balanced (h : pool.Holds order) : pool.Balanced := by
  have hweight : pool.ram.weight = Ledger.size order.pairs := by
    rw [h.ram.weight]
    exact (size_pairs h.weights).symm
  refine ⟨?_, ?_, ?_, h.nvm.bytes, h.nvm.fits, ?_, ?_⟩
  · intro entry hentry hbelow
    have hpair : (entry.key, entry.value) ∈ order.pairs :=
      h.pairs_perm.mem_iff.1 (List.mem_map_of_mem hentry)
    have hdistinct := h.distinct
    rw [contents, Ledger.keys_append] at hdistinct
    refine List.disjoint_of_nodup_append hdistinct
      (Ledger.mem_keys.2 ⟨_, hpair⟩) ?_
    obtain ⟨value, hvalue⟩ :=
      Option.isSome_iff_exists.1 (Std.HashMap.isSome_getElem?_iff_mem.2 hbelow)
    exact Ledger.mem_keys.2 ⟨value, NvmTier.mem_ledger.2 hvalue⟩
  · rw [hweight, ← Ledger.size_perm h.pairs_perm, Ledger.size, List.map_map]
    rfl
  · rw [h.ram.weight, ← h.capacity]
    exact h.fits
  · intro key value hstores
    exact h.entrySize_le_of_mem (h.stores_iff.1 hstores)
  · intro key value hitem evicted hevicted
    have hsize := h.entrySize_le_of_mem (mem_contents.2 (.inr hitem))
    rw [(h.ram.put key value _).1] at hevicted
    exact RecencyOrder.ne_of_mem_put (hsize.trans h.capacity.ge) hevicted

end Pool

namespace Session

/-- After any session the tiers of every pool are in balance, and an operation
on the pool that comes next only subtracts what there is.  What the pool stores
afterwards and what was subtracted are together what it stored before and what
came into RAM or was demoted. -/
theorem tiers_in_balance {ramBytes : Nat} {hierarchy : Hierarchy}
    {engine : Engine} (hcreate : Engine.create ramBytes hierarchy = .ok engine)
    (calls : List EngineCall) :
    let session := (start engine).run calls
    ∀ id (pool : Pool), session.engine.pools[id]? = some pool →
      pool.Balanced ∧
        ∀ call item, session.item? call = some item → item.pool = id →
          (∀ subtraction ∈ pool.subtractions item, subtraction.Covered) ∧
          (pool.perform item).storedBytes +
            Subtraction.total (pool.subtractions item) =
              pool.storedBytes + pool.arriving item +
                (demotedSizes (pool.departures item)).sum := by
  intro session id pool hpool
  have h := sound_run hcreate calls
  obtain ⟨order, hholds, -⟩ := h.keeps.pools id pool hpool
  refine ⟨hholds.balanced, ?_⟩
  intro call item hitem hid
  have hallows : pool.Allows item := (h.permits hitem).allows (hid ▸ hpool)
  exact ⟨hholds.covered item, hholds.bytes_perform_add hallows⟩

/-- The key below RAM is not in RAM, and raising it again displaces the other
key without either count running short. -/
theorem tiers_in_balance_twoKeys :
    Engine.create 8 smallHierarchy = .ok smallEngine ∧
      let session := (start smallEngine).run twoKeys
      ∃ pool, session.engine.pools[0]? = some pool ∧ pool.Balanced ∧
        (∀ subtraction ∈ pool.subtractions (.find 0 [1]),
          subtraction.Covered) ∧
        (pool.perform (.find 0 [1])).storedBytes +
          Subtraction.total (pool.subtractions (.find 0 [1])) =
            pool.storedBytes + pool.arriving (.find 0 [1]) +
              (demotedSizes (pool.departures (.find 0 [1]))).sum := by
  refine ⟨create_smallEngine, ?_⟩
  intro session
  have hpools : 0 < session.engine.pools.size := by
    decide
  obtain ⟨hbalanced, hnext⟩ := tiers_in_balance create_smallEngine twoKeys 0
    _ (Array.getElem?_eq_getElem hpools)
  obtain ⟨hcovered, hbytes⟩ := hnext (.find 0 [1]) (.find 0 [1]) rfl rfl
  exact ⟨_, Array.getElem?_eq_getElem hpools, hbalanced, hcovered, hbytes⟩

end Session

end TieredCache
