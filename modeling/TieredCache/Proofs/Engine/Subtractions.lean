import Mathlib
import TieredCache.Proofs.Engine.Items

/-!
# What operations subtract

Weights and byte counts go down when entries leave.  Each operation has a list
of its subtractions in the order in which it makes them, each with the amount
that there is at that moment; the next count is what is left of it.  In a pool
in good order none of them takes more than that, also where an operation goes
through several states.  So the bytes of a pool change by what comes in and by
what the list says that goes.
-/

namespace TieredCache

/-- An amount, and the part of it that goes. -/
structure Subtraction where
  amount : Nat
  part : Nat
  deriving DecidableEq, Repr

def Subtraction.Covered (subtraction : Subtraction) : Prop :=
  subtraction.part ≤ subtraction.amount

instance (subtraction : Subtraction) : Decidable subtraction.Covered :=
  inferInstanceAs (Decidable (_ ≤ _))

def Subtraction.rest (subtraction : Subtraction) : Nat :=
  subtraction.amount - subtraction.part

namespace Subtraction

def total (subtractions : List Subtraction) : Nat :=
  (subtractions.map part).sum

@[simp]
theorem total_append (first second : List Subtraction) :
    total (first ++ second) = total first + total second := by
  simp [total]

theorem Covered.rest_add {subtraction : Subtraction}
    (h : subtraction.Covered) :
    subtraction.rest + subtraction.part = subtraction.amount :=
  Nat.sub_add_cancel h

/-- A count that one subtraction at most is made from. -/
theorem headD_rest_add {count : Nat} {subtractions : List Subtraction}
    (hcovered : ∀ subtraction ∈ subtractions, subtraction.Covered)
    (hone : subtractions = [] ∨ ∃ part, subtractions = [⟨count, part⟩]) :
    (subtractions.map rest).headD count + total subtractions = count := by
  rcases hone with rfl | ⟨part, rfl⟩
  · rfl
  · exact (hcovered _ List.mem_cons_self).rest_add

end Subtraction

/-! ## Weights -/

namespace LinkedCache

variable {κ ν : Type} [BEq κ] [Hashable κ] {cache : LinkedCache κ ν}
  {path : List Nat} {slot : Nat} {order : RecencyOrder κ ν}

def detachSubtractions (cache : LinkedCache κ ν) (slot : Nat) :
    List Subtraction :=
  let cache := cache.unlink slot
  match cache.entryAt? slot with
  | none => []
  | some entry => [⟨cache.weight, entry.weight⟩]

theorem weight_detach (cache : LinkedCache κ ν) (slot : Nat) :
    (cache.detach slot).2.weight =
      ((cache.detachSubtractions slot).map Subtraction.rest).headD
        cache.weight := by
  have hsame := (sameHoldings_unlink cache slot).weight
  unfold detach detachSubtractions
  cases hentry : (cache.unlink slot).entryAt? slot with
  | none => simp [hentry, hsame]
  | some entry => simp [hentry, Subtraction.rest]

def removeSubtractions (cache : LinkedCache κ ν) (key : κ) :
    List Subtraction :=
  match cache.index[key]? with
  | none => []
  | some slot =>
      { cache with index := cache.index.erase key }.detachSubtractions slot

def overwriteSubtractions (cache : LinkedCache κ ν) (slot : Nat) :
    List Subtraction :=
  match cache.entryAt? slot with
  | none => []
  | some old => [⟨cache.weight, old.weight⟩]

theorem weight_overwrite (cache : LinkedCache κ ν) (slot : Nat) (value : ν)
    (weight : Nat) :
    (cache.overwrite slot value weight).weight =
      ((cache.overwriteSubtractions slot).map
        fun subtraction => subtraction.rest + weight).headD cache.weight := by
  unfold overwrite overwriteSubtractions
  cases cache.entryAt? slot with
  | none => exact (sameHoldings_touch cache slot).weight
  | some old => exact (sameHoldings_touch _ slot).weight

def evictSubtractions : Nat → LinkedCache κ ν → List Subtraction
  | 0, _ => []
  | rounds + 1, cache =>
      if cache.weight ≤ cache.capacity then []
      else
        match cache.oldest with
        | none => []
        | some slot =>
            cache.detachSubtractions slot ++
              match cache.evictOldest with
              | (none, _) => []
              | (some _, cache) => evictSubtractions rounds cache

def storedSubtractions (cache : LinkedCache κ ν) (key : κ) :
    List Subtraction :=
  match cache.index[key]? with
  | some slot => cache.overwriteSubtractions slot
  | none => []

def putSubtractions (cache : LinkedCache κ ν) (key : κ) (value : ν)
    (weight : Nat) : List Subtraction :=
  if cache.capacity < weight then cache.removeSubtractions key
  else
    let next := cache.stored key value weight
    cache.storedSubtractions key ++ evictSubtractions next.size next

theorem Filled.covered_detach (h : cache.Filled path) :
    ∀ subtraction ∈ cache.detachSubtractions slot, subtraction.Covered := by
  intro subtraction hmem
  have hsame := sameHoldings_unlink cache slot
  unfold detachSubtractions at hmem
  simp only at hmem
  cases hentry : (cache.unlink slot).entryAt? slot with
  | none => simp [hentry] at hmem
  | some entry =>
      rw [hentry, List.mem_singleton] at hmem
      subst hmem
      have hweight := h.weight_le
        ((hsame.held? slot).symm.trans (held?_of_entryAt? hentry))
      unfold Subtraction.Covered
      rw [hsame.weight]
      exact hweight

theorem Filled.covered_remove (h : cache.Filled path) (key : κ) :
    ∀ subtraction ∈ cache.removeSubtractions key, subtraction.Covered := by
  intro subtraction hmem
  unfold removeSubtractions at hmem
  cases hindex : cache.index[key]? with
  | none => simp [hindex] at hmem
  | some slot =>
      rw [hindex] at hmem
      exact (h.withIndex (cache.index.erase key)).covered_detach
        subtraction hmem

theorem Filled.covered_overwrite (h : cache.Filled path) :
    ∀ subtraction ∈ cache.overwriteSubtractions slot,
      subtraction.Covered := by
  intro subtraction hmem
  unfold overwriteSubtractions at hmem
  cases hold : cache.entryAt? slot with
  | none => simp [hold] at hmem
  | some old =>
      rw [hold, List.mem_singleton] at hmem
      subst hmem
      exact h.weight_le (held?_of_entryAt? hold)

theorem Filled.covered_stored (h : cache.Filled path) (key : κ) :
    ∀ subtraction ∈ cache.storedSubtractions key, subtraction.Covered := by
  intro subtraction hmem
  unfold storedSubtractions at hmem
  cases hindex : cache.index[key]? with
  | none => simp [hindex] at hmem
  | some slot =>
      rw [hindex] at hmem
      exact h.covered_overwrite subtraction hmem

theorem Filled.weight_detach_add (h : cache.Filled path) (slot : Nat) :
    (cache.detach slot).2.weight +
      Subtraction.total (cache.detachSubtractions slot) = cache.weight := by
  rw [weight_detach]
  apply Subtraction.headD_rest_add h.covered_detach
  unfold detachSubtractions
  cases hentry : (cache.unlink slot).entryAt? slot with
  | none => simp [hentry]
  | some entry =>
      refine .inr ⟨entry.weight, ?_⟩
      simp only [hentry, (sameHoldings_unlink cache slot).weight]

theorem Filled.weight_remove_add (h : cache.Filled path) (key : κ) :
    (cache.remove key).2.weight +
      Subtraction.total (cache.removeSubtractions key) = cache.weight := by
  unfold remove removeSubtractions
  cases hindex : cache.index[key]? with
  | none => rfl
  | some slot =>
      exact (h.withIndex (cache.index.erase key)).weight_detach_add slot

theorem Keeps.covered_remove (h : cache.Keeps order) (key : κ) :
    ∀ subtraction ∈ cache.removeSubtractions key, subtraction.Covered := by
  obtain ⟨path, hpath, -⟩ := h
  exact hpath.filled.covered_remove key

theorem Keeps.weight_remove_add (h : cache.Keeps order) (key : κ) :
    (cache.remove key).2.weight +
      Subtraction.total (cache.removeSubtractions key) = cache.weight := by
  obtain ⟨path, hpath, -⟩ := h
  exact hpath.filled.weight_remove_add key

theorem weight_get (cache : LinkedCache κ ν) (key : κ) :
    (cache.get key).2.weight = cache.weight := by
  unfold get
  cases cache.index[key]? with
  | none => rfl
  | some slot => exact (sameHoldings_touch cache slot).weight

theorem weight_insertNew (cache : LinkedCache κ ν) (key : κ) (value : ν)
    (weight : Nat) :
    (cache.insertNew key value weight).weight = cache.weight + weight := by
  rw [insertNew_eq_linkNewest]
  exact (sameHoldings_linkNewest _ _).weight

theorem weight_evictOldest (hslot : cache.oldest = some slot) :
    cache.evictOldest.2.weight = (cache.detach slot).2.weight := by
  unfold evictOldest
  rw [hslot]
  rcases hdetach : cache.detach slot with ⟨_ | entry, next⟩
  · simp only [hdetach]
  · simp only [hdetach]

theorem Consistent.weight_stored_add (h : cache.Consistent path) (key : κ)
    (value : ν) (weight : Nat) :
    (cache.stored key value weight).weight +
      Subtraction.total (cache.storedSubtractions key) =
        cache.weight + weight := by
  have hcovered := h.filled.covered_stored key
  unfold LinkedCache.stored storedSubtractions
  unfold storedSubtractions at hcovered
  cases hindex : cache.index[key]? with
  | none => exact cache.weight_insertNew key value weight
  | some slot =>
      obtain ⟨before, after, entry, -, hentry, -⟩ := h.split_of_some hindex
      obtain ⟨old, hold, -⟩ := Option.map_eq_some_iff.1 hentry
      have hlist : cache.overwriteSubtractions slot =
          [⟨cache.weight, old.weight⟩] := by
        simp only [overwriteSubtractions, hold]
      simp only [hindex, hlist, List.mem_singleton, forall_eq] at hcovered
      have hrest : cache.weight - old.weight + old.weight = cache.weight :=
        hcovered.rest_add
      simp only [weight_overwrite, hlist]
      change cache.weight - old.weight + weight + old.weight = _
      omega

variable [LawfulBEq κ]

/-- Every round of evictions starts from a consistent cache. -/
theorem Consistent.covered_evict (h : cache.Consistent path) (rounds : Nat) :
    ∀ subtraction ∈ evictSubtractions rounds cache, subtraction.Covered := by
  induction rounds generalizing cache path with
  | zero => simp [evictSubtractions]
  | succ rounds ih =>
      intro subtraction hmem
      unfold evictSubtractions at hmem
      split at hmem
      · simp at hmem
      · rename_i hexcess
        rcases List.eq_nil_or_concat' path with rfl | ⟨front, last, rfl⟩
        · exact absurd (h.filled.weight ▸ Nat.zero_le _) hexcess
        · obtain ⟨entry, next, hevict, -, hnext, -⟩ := h.evictOldest
          have holdest : cache.oldest = some last := by
            rw [h.filled.threaded.oldest, List.getLast?_concat]
          simp only [holdest, hevict] at hmem
          rcases List.mem_append.1 hmem with hfirst | hlater
          · exact h.filled.covered_detach subtraction hfirst
          · exact ih hnext subtraction hlater

theorem Consistent.weight_evict_add (h : cache.Consistent path)
    (gone : List (κ × ν)) (rounds : Nat) :
    (cache.evictExcess gone rounds).2.weight +
      Subtraction.total (evictSubtractions rounds cache) = cache.weight := by
  induction rounds generalizing cache path gone with
  | zero => rfl
  | succ rounds ih =>
      unfold LinkedCache.evictExcess evictSubtractions
      split
      · rfl
      · rename_i hexcess
        rcases List.eq_nil_or_concat' path with rfl | ⟨front, last, rfl⟩
        · exact absurd (h.filled.weight ▸ Nat.zero_le _) hexcess
        · obtain ⟨entry, next, hevict, -, hnext, -⟩ := h.evictOldest
          have holdest : cache.oldest = some last := by
            rw [h.filled.threaded.oldest, List.getLast?_concat]
          have hfirst := h.filled.weight_detach_add last
          have hlater := ih hnext (entry.pair :: gone)
          rw [← weight_evictOldest holdest, hevict] at hfirst
          simp only [holdest, hevict, Subtraction.total_append]
          change next.weight + _ = _ at hfirst
          omega

theorem Keeps.covered_put [DecidableEq κ] (h : cache.Keeps order) (key : κ)
    (value : ν) (weight : Nat) :
    ∀ subtraction ∈ cache.putSubtractions key value weight,
      subtraction.Covered := by
  obtain ⟨path, hpath, -⟩ := h
  intro subtraction hmem
  unfold putSubtractions at hmem
  split at hmem
  · exact hpath.filled.covered_remove key subtraction hmem
  · obtain ⟨path', hstored, -⟩ := hpath.stored key value weight
    rcases List.mem_append.1 hmem with hreplaced | hevicted
    · exact hpath.filled.covered_stored key subtraction hreplaced
    · exact hstored.covered_evict _ subtraction hevicted

theorem Keeps.weight_put_add [DecidableEq κ] (h : cache.Keeps order) (key : κ)
    (value : ν) {weight : Nat} (hweight : weight ≤ cache.capacity) :
    (cache.put key value weight).2.weight +
      Subtraction.total (cache.putSubtractions key value weight) =
        cache.weight + weight := by
  obtain ⟨path, hpath, -⟩ := h
  obtain ⟨path', hstored, -⟩ := hpath.stored key value weight
  have hreplaced := hpath.weight_stored_add key value weight
  have hevicted := hstored.weight_evict_add []
    (cache.stored key value weight).size
  rw [put_of_le key value hweight, putSubtractions,
    if_neg (Nat.not_lt.2 hweight), Subtraction.total_append]
  omega

end LinkedCache

/-! ## Bytes -/

namespace NvmTier

variable {tier : NvmTier}

def takeSubtractions (tier : NvmTier) (key : Bytes) : List Subtraction :=
  match tier.items[key]? with
  | none => []
  | some value => [⟨tier.bytes, entrySize key value⟩]

theorem bytes_take (tier : NvmTier) (key : Bytes) :
    (tier.take key).2.bytes =
      ((tier.takeSubtractions key).map Subtraction.rest).headD tier.bytes := by
  unfold take takeSubtractions
  cases tier.items[key]? <;> rfl

/-- Counting the bytes with an entry takes off those of an older one. -/
def admitSubtractions (tier : NvmTier) (key : Bytes) : List Subtraction :=
  match tier.items[key]? with
  | some old => [⟨tier.bytes, entrySize key old⟩]
  | none => [⟨tier.bytes, 0⟩]

theorem bytesWith_eq (tier : NvmTier) (key value : Bytes) :
    ∀ subtraction ∈ tier.admitSubtractions key,
      tier.bytesWith key value = subtraction.rest + entrySize key value := by
  intro subtraction hmem
  unfold admitSubtractions at hmem
  unfold bytesWith
  cases hitem : tier.items[key]? with
  | none =>
      rw [hitem, List.mem_singleton] at hmem
      subst hmem
      rfl
  | some old =>
      rw [hitem, List.mem_singleton] at hmem
      subst hmem
      rfl

def receiveSubtractions (tier : NvmTier) :
    List (Bytes × Bytes) → List Subtraction
  | [] => []
  | (key, value) :: rest =>
      tier.admitSubtractions key ++
        receiveSubtractions (receiveOne (tier, []) (key, value)).1 rest

theorem Sound.receiveOne (h : tier.Sound) (departures : List Departure)
    (entry : Bytes × Bytes) :
    (NvmTier.receiveOne (tier, departures) entry).1.Sound := by
  simp only [NvmTier.receiveOne]
  split
  · rename_i hroom
    exact h.insert hroom
  · exact h

theorem Sound.covered_take (h : tier.Sound) (key : Bytes) :
    ∀ subtraction ∈ tier.takeSubtractions key, subtraction.Covered := by
  intro subtraction hmem
  unfold takeSubtractions at hmem
  cases hitem : tier.items[key]? with
  | none => simp [hitem] at hmem
  | some value =>
      rw [hitem, List.mem_singleton] at hmem
      subst hmem
      exact (Nat.le_add_right _ _).trans_eq (h.bytes_eq hitem).symm

theorem Sound.covered_admit (h : tier.Sound) (key : Bytes) :
    ∀ subtraction ∈ tier.admitSubtractions key, subtraction.Covered := by
  intro subtraction hmem
  unfold admitSubtractions at hmem
  cases hitem : tier.items[key]? with
  | none =>
      rw [hitem, List.mem_singleton] at hmem
      subst hmem
      exact Nat.zero_le _
  | some old =>
      rw [hitem, List.mem_singleton] at hmem
      subst hmem
      exact (Nat.le_add_right _ _).trans_eq (h.bytes_eq hitem).symm

theorem Sound.covered_receive (h : tier.Sound)
    (evicted : List (Bytes × Bytes)) :
    ∀ subtraction ∈ tier.receiveSubtractions evicted,
      subtraction.Covered := by
  induction evicted generalizing tier with
  | nil => simp [receiveSubtractions]
  | cons entry rest ih =>
      obtain ⟨key, value⟩ := entry
      intro subtraction hmem
      rcases List.mem_append.1 hmem with hfirst | hlater
      · exact h.covered_admit key subtraction hfirst
      · exact ih (h.receiveOne [] (key, value)) subtraction hlater

theorem Sound.bytes_take_add (h : tier.Sound) (key : Bytes) :
    (tier.take key).2.bytes +
      Subtraction.total (tier.takeSubtractions key) = tier.bytes := by
  rw [bytes_take]
  apply Subtraction.headD_rest_add (h.covered_take key)
  unfold takeSubtractions
  cases tier.items[key]? with
  | none => exact .inl rfl
  | some value => exact .inr ⟨_, rfl⟩

theorem admitSubtractions_of_notMem (habsent : key ∉ tier.ledger.keys) :
    tier.admitSubtractions key = [⟨tier.bytes, 0⟩] := by
  rw [← Ledger.value?_eq_none_iff, value?_ledger] at habsent
  rw [admitSubtractions, habsent]

theorem Sound.bytesWith_add (h : tier.Sound) (key value : Bytes) :
    tier.bytesWith key value +
      Subtraction.total (tier.admitSubtractions key) =
        tier.bytes + entrySize key value := by
  have hwith := tier.bytesWith_eq key value
  have hcovered := h.covered_admit key
  obtain ⟨part, hlist⟩ : ∃ part,
      tier.admitSubtractions key = [⟨tier.bytes, part⟩] := by
    unfold admitSubtractions
    cases tier.items[key]? with
    | none => exact ⟨0, rfl⟩
    | some old => exact ⟨_, rfl⟩
  simp only [hlist, List.mem_singleton, forall_eq] at hwith hcovered
  have hrest : tier.bytes - part + part = tier.bytes := hcovered.rest_add
  rw [hwith, hlist]
  change tier.bytes - part + entrySize key value + part = _
  omega

/-- Where all that comes is new, what is admitted adds to the bytes. -/
theorem Sound.bytes_receive_add (h : tier.Sound) (evicted : Ledger Bytes)
    (hnodup : (evicted ++ tier.ledger).keys.Nodup) :
    (tier.receive evicted).1.bytes +
      Subtraction.total (tier.receiveSubtractions evicted) =
        tier.bytes + (demotedSizes (tier.receive evicted).2).sum := by
  induction evicted generalizing tier with
  | nil => rfl
  | cons entry rest ih =>
      obtain ⟨key, value⟩ := entry
      have habsent := notMem_of_nodup_cons hnodup
      rw [receive_cons, receiveSubtractions, Subtraction.total_append]
      simp only [NvmTier.receiveOne]
      by_cases hroom : tier.bytesWith key value ≤ tier.capacity
      · have hfirst := h.bytesWith_add key value
        have hmoved := append_insert_perm h habsent
          (bytesWith_of_notMem habsent value ▸ hroom) rest
        have hlater := ih (h.insert hroom)
          ((hmoved.map Prod.fst).nodup_iff.2 hnodup)
        have hsizes : (demotedSizes (.demoted key (entrySize key value) ::
            ((tier.insert key value).receive rest).2)).sum =
            entrySize key value +
              (demotedSizes ((tier.insert key value).receive rest).2).sum :=
          rfl
        have hbytes : (tier.insert key value).bytes =
            tier.bytesWith key value := rfl
        simp only [if_pos hroom, hsizes]
        omega
      · have hlater := ih h (List.nodup_cons.1 hnodup).2
        have hnone : Subtraction.total (tier.admitSubtractions key) = 0 := by
          rw [admitSubtractions_of_notMem habsent]
          rfl
        have hsizes : demotedSizes (.dropped key :: (tier.receive rest).2) =
            demotedSizes (tier.receive rest).2 := rfl
        simp only [if_neg hroom, hsizes]
        omega

end NvmTier

/-! ## Pools -/

namespace Pool

variable {pool : Pool} {order : RecencyOrder Bytes Bytes} {key value : Bytes}

def raiseSubtractions (pool : Pool) (key value : Bytes) : List Subtraction :=
  pool.ram.putSubtractions key value (entrySize key value) ++
    pool.nvm.receiveSubtractions
      (pool.ram.put key value (entrySize key value)).1

/-- What an operation subtracts, in the states that it goes through. -/
def subtractions (pool : Pool) : ItemCall → List Subtraction
  | .install handle =>
      pool.nvm.takeSubtractions handle.key ++
        { pool with nvm := (pool.nvm.take handle.key).2 }.raiseSubtractions
          handle.key handle.memory
  | .find _ key =>
      match pool.ram.get key with
      | (some _, _) => []
      | (none, ram) =>
          pool.nvm.takeSubtractions key ++
            match pool.nvm.take key with
            | (none, _) => []
            | (some value, nvm) =>
                { pool with ram, nvm }.raiseSubtractions key value
  | .remove _ key =>
      pool.ram.removeSubtractions key ++ pool.nvm.takeSubtractions key

theorem covered_raise (pool : Pool) (hram : pool.ram.Keeps order)
    (hnvm : pool.nvm.Sound) (key value : Bytes) :
    ∀ subtraction ∈ pool.raiseSubtractions key value,
      subtraction.Covered := by
  intro subtraction hmem
  rcases List.mem_append.1 hmem with hput | hreceived
  · exact hram.covered_put key value _ subtraction hput
  · exact hnvm.covered_receive _ subtraction hreceived

theorem Holds.covered (h : pool.Holds order) (call : ItemCall) :
    ∀ subtraction ∈ pool.subtractions call, subtraction.Covered := by
  intro subtraction hmem
  cases call with
  | install handle =>
      obtain ⟨-, hnvm, -⟩ := NvmTier.take_spec h.nvm handle.key
      rcases List.mem_append.1 hmem with htaken | hraised
      · exact h.nvm.covered_take handle.key subtraction htaken
      · exact covered_raise { pool with nvm := (pool.nvm.take handle.key).2 }
          h.ram hnvm _ _ subtraction hraised
  | find id key =>
      obtain ⟨-, hram⟩ := h.ram.get key
      obtain ⟨-, hnvm, -⟩ := NvmTier.take_spec h.nvm key
      unfold subtractions at hmem
      rcases hget : pool.ram.get key with ⟨found, ram⟩
      rw [hget] at hram
      cases found with
      | some value => simp [hget] at hmem
      | none =>
          rcases htake : pool.nvm.take key with ⟨item, nvm⟩
          rw [htake] at hnvm
          simp only [hget, htake] at hmem
          rcases List.mem_append.1 hmem with htaken | hraised
          · exact h.nvm.covered_take key subtraction htaken
          · cases item with
            | none => simp at hraised
            | some value =>
                exact covered_raise { pool with ram, nvm } hram hnvm _ _ _
                  hraised
  | remove id key =>
      rcases List.mem_append.1 hmem with hremoved | htaken
      · exact h.ram.covered_remove key subtraction hremoved
      · exact h.nvm.covered_take key subtraction htaken

/-! ## What comes in and what goes -/

def storedBytes (pool : Pool) : Nat := pool.ram.weight + pool.nvm.bytes

def arriving (pool : Pool) : ItemCall → Nat
  | .install handle => entrySize handle.key handle.memory
  | .find _ key =>
      match (pool.find key).1 with
      | .inRam _ => 0
      | .inNvm value => entrySize key value
      | .missing => 0
  | .remove _ _ => 0

theorem Holds.bytes_raise_add (h : pool.Holds order)
    (habsent : key ∉ pool.nvm.ledger.keys)
    (hsize : entrySize key value ≤ pool.ramBytes) :
    (pool.raise key value).2.storedBytes +
      Subtraction.total (pool.raiseSubtractions key value) =
        pool.storedBytes + entrySize key value +
          (demotedSizes (pool.raise key value).1).sum := by
  have hroom : entrySize key value ≤ pool.ram.capacity := by
    rw [h.ram.capacity, h.capacity]
    exact hsize
  have hput := h.ram.weight_put_add key value hroom
  have hreceived := h.nvm.bytes_receive_add _ (h.nodup_displaced habsent hsize)
  rw [raiseSubtractions, Subtraction.total_append]
  change (pool.ram.put key value (entrySize key value)).2.weight +
    (pool.nvm.receive (pool.ram.put key value _).1).1.bytes + _ =
      pool.ram.weight + pool.nvm.bytes + _ +
        (demotedSizes (pool.nvm.receive (pool.ram.put key value _).1).2).sum
  omega

theorem Holds.bytes_find_add (h : pool.Holds order) (id : Nat) (key : Bytes) :
    (pool.perform (.find id key)).storedBytes +
      Subtraction.total (pool.subtractions (.find id key)) =
        pool.storedBytes + pool.arriving (.find id key) +
          (demotedSizes (pool.departures (.find id key))).sum := by
  have hkept {found ram} (hget : pool.ram.get key = (found, ram)) :
      ram.weight = pool.ram.weight := by
    rw [← pool.ram.weight_get key, hget]
  rcases pool.find_cases key with ⟨value, ram, hget, hfind⟩ |
    ⟨ram, hget, hitem, hfind⟩ | ⟨value, ram, hget, hitem, hfind⟩
  · simp only [perform, departures, arriving, subtractions, hget, hfind,
      storedBytes, hkept hget]
    rfl
  · have htake : pool.nvm.take key = (none, pool.nvm) := by
      simp only [NvmTier.take, hitem]
    have hnothing : pool.nvm.takeSubtractions key = [] := by
      simp only [NvmTier.takeSubtractions, hitem]
    simp only [perform, departures, arriving, subtractions, hget, hfind,
      htake, hnothing, storedBytes, hkept hget]
    rfl
  · obtain ⟨htaken, habsent, -⟩ := (h.of_get_none hget).takeNvm key
    have hsize := h.raisable _ (NvmTier.mem_ledger.2 hitem)
    have hraised := htaken.bytes_raise_add habsent hsize
    have htook := h.nvm.bytes_take_add key
    have htake : (pool.nvm.take key).1 = some value := by
      simp only [NvmTier.take, hitem]
    have hweight := hkept hget
    rcases hfetch : pool.nvm.take key with ⟨item, nvm⟩
    simp only [hfetch] at htake hraised htook
    subst htake
    simp only [storedBytes] at hraised
    simp only [perform, departures, arriving, subtractions, hget, hfind,
      hfetch, Subtraction.total_append, storedBytes]
    omega

/-- The bytes of a pool change by what an operation brings into RAM or demotes
and by what it subtracts. -/
theorem Holds.bytes_perform_add (h : pool.Holds order) {call : ItemCall}
    (hallows : pool.Allows call) :
    (pool.perform call).storedBytes +
      Subtraction.total (pool.subtractions call) =
        pool.storedBytes + pool.arriving call +
          (demotedSizes (pool.departures call)).sum := by
  cases call with
  | install handle =>
      obtain ⟨htaken, habsent, -⟩ := h.takeNvm handle.key
      have hraised := htaken.bytes_raise_add habsent hallows
      have htake := h.nvm.bytes_take_add handle.key
      have hstore : pool.store handle.key handle.memory =
          Pool.raise { pool with nvm := (pool.nvm.take handle.key).2 }
            handle.key handle.memory := rfl
      simp only [perform, departures, hstore, arriving, subtractions,
        Subtraction.total_append]
      simp only [storedBytes] at hraised ⊢
      omega
  | find id key => exact h.bytes_find_add id key
  | remove id key =>
      have hremoved := h.ram.weight_remove_add key
      have htake := h.nvm.bytes_take_add key
      have hremove : (pool.remove key).2 =
          { pool with
            ram := (pool.ram.remove key).2, nvm := (pool.nvm.take key).2 } :=
        rfl
      have hnone : (demotedSizes (pool.departures (.remove id key))).sum = 0 :=
        rfl
      simp only [perform, hremove, hnone, arriving, subtractions, storedBytes,
        Subtraction.total_append]
      omega

end Pool

end TieredCache
