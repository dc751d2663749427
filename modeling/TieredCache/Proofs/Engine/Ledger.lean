import Mathlib
import TieredCache.Proofs.Engine.Contents

/-!
# The ledger of a pool

A pool keeps what a ledger lists, wherever it has put it.  Its operations answer
from the ledger and lead to the next one, and what they were called for is in
RAM afterwards.
-/

namespace TieredCache.Pool

open RecencyOrder (totalWeight)

variable {pool next : Pool} {ledger : Ledger Bytes} {key value : Bytes}

def Keeps (pool : Pool) (ledger : Ledger Bytes) : Prop :=
  ∃ order, pool.Holds order ∧ (pool.contents order).Perm ledger

def inRam? (pool : Pool) (key : Bytes) : Option Bytes := (pool.ram.get key).1

/-- A pool comes to keep a target apart from what was dropped of it, and nothing
is dropped when one of the tiers has room for the target. -/
structure Reaches (pool next : Pool) (target : Ledger Bytes)
    (dropped : List Bytes) : Prop where
  keeps : next.Keeps (target.eraseAll dropped)
  ramBytes : next.ramBytes = pool.ramBytes
  nvmCapacity : next.nvm.capacity = pool.nvm.capacity
  listed : ∀ gone ∈ dropped, gone ∈ target.keys
  roomy : target.size ≤ max pool.ramBytes pool.nvm.capacity → dropped = []

theorem keeps_empty (ramBytes nvmBytes : Nat) :
    (empty ramBytes nvmBytes).Keeps [] := by
  refine ⟨.empty ramBytes, holds_empty ramBytes nvmBytes, ?_⟩
  simp [contents, empty, RecencyOrder.pairs, RecencyOrder.empty,
    NvmTier.ledger_empty]

theorem Keeps.nodup (h : pool.Keeps ledger) : ledger.keys.Nodup := by
  obtain ⟨order, hholds, hperm⟩ := h
  exact (hperm.map Prod.fst).nodup_iff.1 hholds.distinct

theorem Holds.inRam? {order : RecencyOrder Bytes Bytes} (h : pool.Holds order)
    (key : Bytes) :
    pool.inRam? key = (order.find? key).map WeightedEntry.value := by
  rw [Pool.inRam?, (h.ram.get key).1, RecencyOrder.get]
  cases order.find? key <;> rfl

theorem Keeps.value?_of_inRam? (h : pool.Keeps ledger)
    (hram : pool.inRam? key = some value) : ledger.value? key = some value := by
  obtain ⟨order, hholds, hperm⟩ := h
  rw [hholds.inRam?] at hram
  rw [← Ledger.value?_perm hperm hholds.distinct, value?_contents, hram]
  rfl

theorem Keeps.sizes_le_of_inRam? (h : pool.Keeps ledger) {other stored : Bytes}
    (hne : other ≠ key) (hram : pool.inRam? key = some value)
    (hother : pool.inRam? other = some stored) :
    entrySize key value + entrySize other stored ≤ pool.ramBytes := by
  obtain ⟨order, hholds, -⟩ := h
  rw [hholds.inRam?] at hram hother
  obtain ⟨entry, hentry, rfl⟩ := Option.map_eq_some_iff.1 hram
  obtain ⟨second, hsecond, rfl⟩ := Option.map_eq_some_iff.1 hother
  obtain rfl : entry.key = key := by simpa using List.find?_some hentry
  obtain rfl : second.key = other := by simpa using List.find?_some hsecond
  have hmem := List.mem_of_find?_eq_some hentry
  have hmem' := List.mem_of_find?_eq_some hsecond
  have hperm := RecencyOrder.perm_cons_others hholds.keys_nodup hentry
  have hrest : second.weight ≤ totalWeight (order.others entry.key) :=
    weight_le_of_mem (RecencyOrder.mem_others.2 ⟨hmem', hne⟩)
  have hweight : entry.weight + totalWeight (order.others entry.key) =
      order.weight := RecencyOrder.totalWeight_perm hperm
  have hfits := hholds.fits
  rw [hholds.capacity] at hfits
  rw [← hholds.weights entry hmem, ← hholds.weights second hmem']
  omega

theorem Settles.reaches {order : RecencyOrder Bytes Bytes}
    {target : Ledger Bytes} {departures : List Departure}
    (h : pool.Settles next order target departures)
    (hperm : target.Perm ledger) (hnodup : ledger.keys.Nodup) :
    pool.Reaches next ledger (droppedKeys departures) := by
  obtain ⟨hholds, hramBytes, hcapacity, lost, hdropped, hsettled, hroom⟩ := h
  rw [hdropped]
  refine ⟨⟨order, hholds, Ledger.perm_eraseAll (hsettled.trans hperm) hnodup⟩,
    hramBytes, hcapacity, ?_, ?_⟩
  · intro gone hgone
    obtain ⟨value, hmem⟩ := Ledger.mem_keys.1 hgone
    have htarget : (gone, value) ∈ ledger :=
      (hsettled.trans hperm).mem_iff.1 (List.mem_append_right _ hmem)
    exact Ledger.mem_keys.2 ⟨value, htarget⟩
  · intro hfit
    rw [← Ledger.size_perm hperm] at hfit
    rw [hroom hfit]
    rfl

theorem Keeps.store (h : pool.Keeps ledger)
    (hsize : entrySize key value ≤ pool.ramBytes) :
    pool.Reaches (pool.store key value).2 (ledger.set key value)
        (droppedKeys (pool.store key value).1) ∧
      (pool.store key value).2.inRam? key = some value := by
  have hnodup : (ledger.set key value).keys.Nodup := Ledger.nodup_set h.nodup
  obtain ⟨order, hholds, hperm⟩ := h
  obtain ⟨order', hfind, hsettles⟩ := hholds.store hsize
  refine ⟨hsettles.reaches (Ledger.set_perm hperm) hnodup, ?_⟩
  rw [hsettles.holds.inRam?, hfind]
  rfl

theorem Keeps.find (h : pool.Keeps ledger) (key : Bytes) :
    (pool.find key).1.value? = ledger.value? key ∧
      pool.Reaches (pool.find key).2.2 ledger
        (droppedKeys (pool.find key).2.1) ∧
      (pool.find key).2.2.inRam? key = ledger.value? key := by
  have hnodup := h.nodup
  obtain ⟨order, hholds, hperm⟩ := h
  obtain ⟨hvalue, order', hfind, hsettles⟩ := hholds.find key
  rw [Ledger.value?_perm hperm hholds.distinct] at hvalue
  refine ⟨hvalue, hsettles.reaches hperm hnodup, ?_⟩
  rw [hsettles.holds.inRam?, hfind, hvalue]

theorem Keeps.remove (h : pool.Keeps ledger) (key : Bytes) :
    (pool.remove key).1 = (ledger.value? key).isSome ∧
      pool.Reaches (pool.remove key).2 (ledger.erase key) [] := by
  have hnodup : (ledger.erase key).keys.Nodup := Ledger.nodup_erase h.nodup
  obtain ⟨order, hholds, hperm⟩ := h
  obtain ⟨hremoved, order', hsettles⟩ := hholds.remove key
  rw [Ledger.value?_perm hperm hholds.distinct] at hremoved
  exact ⟨hremoved, hsettles.reaches (hperm.filter _) hnodup⟩

end TieredCache.Pool
