import Mathlib
import TieredCache.Proofs.Ledger

/-!
# The non-volatile side keeps its books

The items of a non-volatile tier form a ledger, and the tier counts its bytes
exactly.  What a tier receives is either in it afterwards or was dropped, and
nothing is dropped while there is room for everything.
-/

namespace TieredCache

def droppedKeys (departures : List Departure) : List Bytes :=
  departures.filterMap fun departure =>
    match departure with
    | .demoted .. => none
    | .dropped key => some key

def demotedSizes (departures : List Departure) : List Nat :=
  departures.filterMap fun departure =>
    match departure with
    | .demoted _ size => some size
    | .dropped _ => none

theorem Counters.countDepartures_eq (counters : Counters)
    (departures : List Departure) :
    counters.countDepartures departures =
      { counters with
        nvmBytesWritten :=
          counters.nvmBytesWritten + (demotedSizes departures).sum
        nvmEvictions := counters.nvmEvictions + (droppedKeys departures).length
        ramEvictions :=
          counters.ramEvictions + (demotedSizes departures).length } := by
  induction departures generalizing counters with
  | nil => rfl
  | cons departure rest ih =>
      unfold countDepartures at ih ⊢
      rw [List.foldl_cons, ih]
      cases departure with
      | demoted key size =>
          simp [countDeparture, demotedSizes, droppedKeys]
          omega
      | dropped key =>
          simp [countDeparture, demotedSizes, droppedKeys]
          omega

namespace NvmTier

variable {tier : NvmTier} {key value : Bytes}

def ledger (tier : NvmTier) : Ledger Bytes := tier.items.toList

theorem mem_ledger :
    (key, value) ∈ tier.ledger ↔ tier.items[key]? = some value :=
  Std.HashMap.mem_toList_iff_getElem?_eq_some

theorem nodup_ledger (tier : NvmTier) : tier.ledger.keys.Nodup := by
  rw [Ledger.keys, List.Nodup, List.pairwise_map]
  exact Std.HashMap.distinct_keys_toList.imp fun h heq => by simp [heq] at h

theorem value?_ledger : tier.ledger.value? key = tier.items[key]? := by
  ext value
  rw [Ledger.value?_eq_some_iff tier.nodup_ledger, mem_ledger]

/-- The bytes are those of the items, and they are within the capacity. -/
structure Sound (tier : NvmTier) : Prop where
  bytes : tier.bytes = tier.ledger.size
  fits : tier.bytes ≤ tier.capacity

theorem sound_empty (capacity : Nat) : (empty capacity).Sound :=
  ⟨by simp [empty, ledger, Ledger.size], Nat.zero_le _⟩

theorem ledger_empty (capacity : Nat) : (empty capacity).ledger = [] := by
  simp [empty, ledger]

/-! ## Taking -/

theorem ledger_erase (items : Std.HashMap Bytes Bytes) (key : Bytes) :
    (items.erase key).toList.Perm (Ledger.erase items.toList key) := by
  have hnodup (items : Std.HashMap Bytes Bytes) : items.toList.Nodup :=
    (nodup_ledger ⟨items, 0, 0⟩).of_map _
  refine (List.perm_ext_iff_of_nodup (hnodup _) ((hnodup items).filter _)).2 ?_
  rintro ⟨other, value⟩
  rw [Std.HashMap.mem_toList_iff_getElem?_eq_some,
    Std.HashMap.getElem?_erase]
  change _ ↔ (other, value) ∈ Ledger.erase items.toList key
  rw [Ledger.mem_erase, Std.HashMap.mem_toList_iff_getElem?_eq_some]
  by_cases h : key = other
  · simp [h]
  · simp [h, Ne.symm h]

theorem Sound.bytes_eq (h : tier.Sound) (hitem : tier.items[key]? = some value) :
    tier.bytes = entrySize key value + (tier.ledger.erase key).size := by
  rw [h.bytes, Ledger.size_perm
    (Ledger.perm_cons_erase tier.nodup_ledger (mem_ledger.2 hitem)),
    Ledger.size_cons]

theorem take_spec (h : tier.Sound) (key : Bytes) :
    (tier.take key).1 = tier.items[key]? ∧ (tier.take key).2.Sound ∧
      (tier.take key).2.ledger.Perm (tier.ledger.erase key) ∧
      (tier.take key).2.capacity = tier.capacity := by
  cases hitem : tier.items[key]? with
  | none =>
      have habsent : key ∉ tier.ledger.keys := by
        rw [← Ledger.value?_eq_none_iff, value?_ledger, hitem]
      simp only [take, hitem]
      refine ⟨trivial, h, ?_, trivial⟩
      rw [Ledger.erase_of_notMem habsent]
  | some value =>
      have hledger := ledger_erase tier.items key
      simp only [take, hitem]
      refine ⟨trivial, ⟨?_, ?_⟩, hledger, trivial⟩
      · rw [ledger, Ledger.size_perm hledger, h.bytes_eq hitem,
          Nat.add_sub_cancel_left]
        rfl
      · exact (Nat.sub_le _ _).trans h.fits

/-! ## Receiving -/

theorem bytesWith_of_notMem (habsent : key ∉ tier.ledger.keys)
    (value : Bytes) :
    tier.bytesWith key value = tier.bytes + entrySize key value := by
  rw [← Ledger.value?_eq_none_iff, value?_ledger] at habsent
  simp [bytesWith, habsent]

theorem ledger_insert (tier : NvmTier) (key value : Bytes) :
    (tier.insert key value).ledger.Perm (tier.ledger.set key value) := by
  refine (Std.HashMap.toList_insert_perm).trans (List.Perm.of_eq ?_)
  rw [Ledger.set, Ledger.erase, ledger]
  refine congrArg _ (List.filter_congr fun pair _ => ?_)
  by_cases heq : key = pair.1
  · simp [heq]
  · simp [heq, Ne.symm heq]

theorem Sound.insert (h : tier.Sound)
    (hroom : tier.bytesWith key value ≤ tier.capacity) :
    (tier.insert key value).Sound := by
  refine ⟨?_, hroom⟩
  rw [Ledger.size_perm (ledger_insert tier key value), Ledger.set,
    Ledger.size_cons]
  change tier.bytesWith key value = _
  cases hitem : tier.items[key]? with
  | none =>
      have habsent : key ∉ tier.ledger.keys := by
        rw [← Ledger.value?_eq_none_iff, value?_ledger, hitem]
      rw [bytesWith_of_notMem habsent, Ledger.erase_of_notMem habsent, h.bytes,
        Nat.add_comm]
  | some old =>
      have hbytes := h.bytes_eq hitem
      simp only [bytesWith, hitem]
      omega

theorem insert_spec (h : tier.Sound) (habsent : key ∉ tier.ledger.keys)
    (hroom : tier.bytes + entrySize key value ≤ tier.capacity) :
    (tier.insert key value).Sound ∧
      (tier.insert key value).ledger.Perm ((key, value) :: tier.ledger) ∧
      (tier.insert key value).bytes = tier.bytes + entrySize key value := by
  have hbytes := bytesWith_of_notMem habsent value
  have hledger := ledger_insert tier key value
  rw [Ledger.set, Ledger.erase_of_notMem habsent] at hledger
  exact ⟨h.insert (hbytes.trans_le hroom), hledger, hbytes⟩

theorem foldl_receiveOne (evicted : List (Bytes × Bytes)) (tier : NvmTier)
    (departures : List Departure) :
    evicted.foldl receiveOne (tier, departures) =
      ((evicted.foldl receiveOne (tier, [])).1,
        (evicted.foldl receiveOne (tier, [])).2 ++ departures) := by
  induction evicted generalizing tier departures with
  | nil => rfl
  | cons entry rest ih =>
      obtain ⟨key, value⟩ := entry
      simp only [List.foldl_cons, receiveOne]
      split
      · rw [ih, ih _ [_], List.append_assoc]
        rfl
      · rw [ih, ih _ [_], List.append_assoc]
        rfl

theorem receive_cons (tier : NvmTier) (key value : Bytes)
    (rest : List (Bytes × Bytes)) :
    tier.receive ((key, value) :: rest) =
      if tier.bytesWith key value ≤ tier.capacity then
        (((tier.insert key value).receive rest).1,
          .demoted key (entrySize key value) ::
            ((tier.insert key value).receive rest).2)
      else ((tier.receive rest).1, .dropped key :: (tier.receive rest).2) := by
  simp only [receive, List.foldl_cons, receiveOne]
  split <;> rw [foldl_receiveOne] <;> simp

theorem notMem_of_nodup_cons {rest : Ledger Bytes}
    (hnodup : (Ledger.keys ((key, value) :: rest ++ tier.ledger)).Nodup) :
    key ∉ tier.ledger.keys := by
  intro hmem
  have hlater : key ∈ Ledger.keys (rest ++ tier.ledger) := by
    rw [Ledger.keys_append]
    exact List.mem_append_right _ hmem
  exact (List.nodup_cons.1 hnodup).1 hlater

theorem append_insert_perm (h : tier.Sound)
    (habsent : key ∉ tier.ledger.keys)
    (hroom : tier.bytes + entrySize key value ≤ tier.capacity)
    (rest : Ledger Bytes) :
    (rest ++ (tier.insert key value).ledger).Perm
      ((key, value) :: (rest ++ tier.ledger)) := by
  obtain ⟨-, hledger, -⟩ := insert_spec h habsent hroom
  exact (hledger.append_left rest).trans List.perm_middle

/-- What a tier receives joins its items, apart from what is dropped; nothing is
dropped when all of it fits. -/
theorem receive_spec (h : tier.Sound) (evicted : Ledger Bytes)
    (hnodup : (evicted ++ tier.ledger).keys.Nodup) :
    ∃ lost : Ledger Bytes,
      droppedKeys (tier.receive evicted).2 = lost.keys ∧
      ((tier.receive evicted).1.ledger ++ lost).Perm
        (evicted ++ tier.ledger) ∧
      (tier.receive evicted).1.Sound ∧
      (tier.receive evicted).1.capacity = tier.capacity ∧
      (tier.bytes + evicted.size ≤ tier.capacity → lost = []) := by
  induction evicted generalizing tier with
  | nil => exact ⟨[], rfl, by simp [receive], h, rfl, fun _ => rfl⟩
  | cons entry rest ih =>
      obtain ⟨key, value⟩ := entry
      have habsent := notMem_of_nodup_cons hnodup
      rw [receive_cons, bytesWith_of_notMem habsent]
      by_cases hroom : tier.bytes + entrySize key value ≤ tier.capacity
      · rw [if_pos hroom]
        obtain ⟨hsound, -, hbytes⟩ := insert_spec h habsent hroom
        have hmoved := append_insert_perm h habsent hroom rest
        obtain ⟨lost, hdropped, hperm, hsound', hcapacity, hroomy⟩ :=
          ih hsound ((hmoved.map Prod.fst).nodup_iff.2 hnodup)
        refine ⟨lost, hdropped, hperm.trans hmoved, hsound', hcapacity,
          fun hall => hroomy ?_⟩
        rw [Ledger.size_cons] at hall
        rw [hbytes]
        change tier.bytes + entrySize key value + Ledger.size rest ≤
          tier.capacity
        omega
      · rw [if_neg hroom]
        obtain ⟨lost, hdropped, hperm, hsound, hcapacity, -⟩ :=
          ih h (List.nodup_cons.1 hnodup).2
        refine ⟨(key, value) :: lost, ?_, ?_, hsound, hcapacity, ?_⟩
        · rw [Ledger.keys, List.map_cons, ← Ledger.keys, ← hdropped]
          rfl
        · exact List.perm_middle.trans (hperm.cons _)
        · rw [Ledger.size_cons]
          omega

end NvmTier

end TieredCache
