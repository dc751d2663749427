import Mathlib
import TieredCache.Proofs.Recency.Consistent

/-!
# Linked slots keep the order of use

A linked cache keeps an order of use when its path, read from the newest slot to
the oldest, holds the entries of that order.  Every operation gives the answer
that the order gives, and the cache it returns keeps the order that the order
returns.
-/

namespace TieredCache.LinkedCache

open RecencyOrder (totalWeight)

variable {κ ν : Type} [BEq κ] [Hashable κ]

def Keeps (cache : LinkedCache κ ν) (order : RecencyOrder κ ν) : Prop :=
  ∃ path, cache.Consistent path ∧ order = cache.orderAlong path

variable {cache : LinkedCache κ ν} {order : RecencyOrder κ ν}
  {path : List Nat}

/-! ## Observations -/

theorem keeps_empty [LawfulBEq κ] (capacity : Nat) :
    (empty capacity : LinkedCache κ ν).Keeps (.empty capacity) :=
  ⟨[], ⟨filled_empty capacity, indexed_empty capacity⟩, rfl⟩

theorem Keeps.keys_nodup (h : cache.Keeps order) :
    (order.entries.map WeightedEntry.key).Nodup := by
  obtain ⟨path, hpath, rfl⟩ := h
  exact hpath.keys_nodup

theorem Keeps.size (h : cache.Keeps order) :
    cache.size = order.entries.length := by
  obtain ⟨path, hpath, rfl⟩ := h
  exact hpath.indexed.size.trans hpath.length_entries.symm

theorem Keeps.isEmpty (h : cache.Keeps order) :
    cache.isEmpty = order.entries.isEmpty := by
  have hsize := h.size
  unfold LinkedCache.size at hsize
  rw [LinkedCache.isEmpty, Std.HashMap.isEmpty_eq_size_eq_zero, hsize]
  cases order.entries <;> rfl

theorem Keeps.weight (h : cache.Keeps order) : cache.weight = order.weight := by
  obtain ⟨path, hpath, rfl⟩ := h
  exact hpath.filled.weight

theorem Keeps.capacity (h : cache.Keeps order) :
    cache.capacity = order.capacity := by
  obtain ⟨path, -, rfl⟩ := h
  rfl

/-! ## Operations -/

/-- Evicting the excess sheds entries from the back of the order. -/
theorem Consistent.evictExcess [LawfulBEq κ] (h : cache.Consistent path)
    (gone : List (κ × ν)) {rounds : Nat} (hrounds : path.length ≤ rounds) :
    let shedding := RecencyOrder.shed cache.capacity
      (totalWeight (path.filterMap cache.held?))
      (path.filterMap cache.held?).reverse
    (cache.evictExcess gone rounds).1 = gone.reverse ++ shedding.1 ∧
      (cache.evictExcess gone rounds).2.Keeps
        ⟨cache.capacity, shedding.2.reverse⟩ := by
  induction rounds generalizing cache path gone with
  | zero =>
      obtain rfl := List.length_eq_zero_iff.1 (Nat.le_zero.1 hrounds)
      simp only [LinkedCache.evictExcess]
      exact ⟨(List.append_nil _).symm, [], h, rfl⟩
  | succ rounds ih =>
      have hweight := h.filled.weight
      by_cases hexcess : cache.weight ≤ cache.capacity
      · have hshed : RecencyOrder.shed cache.capacity
            (totalWeight (path.filterMap cache.held?))
            (path.filterMap cache.held?).reverse =
            ([], (path.filterMap cache.held?).reverse) :=
          RecencyOrder.shed_of_le (hweight ▸ hexcess)
        simp only [LinkedCache.evictExcess, if_pos hexcess, hshed]
        refine ⟨(List.append_nil _).symm, path, h, ?_⟩
        rw [List.reverse_reverse, orderAlong]
      · rcases List.eq_nil_or_concat' path with rfl | ⟨front, last, rfl⟩
        · exact absurd (hweight ▸ Nat.zero_le _) hexcess
        · obtain ⟨entry, cache', hevict, hsplit, hconsistent, horder⟩ :=
            h.evictOldest
          have hlength : front.length ≤ rounds := by
            rw [List.length_append] at hrounds
            exact Nat.le_of_succ_le_succ hrounds
          obtain ⟨hgone, hkeeps⟩ :=
            ih hconsistent (entry.pair :: gone) hlength
          have hcapacity : cache'.capacity = cache.capacity :=
            congrArg RecencyOrder.capacity horder
          have hentries : front.filterMap cache'.held? =
              front.filterMap cache.held? :=
            congrArg RecencyOrder.entries horder
          rw [hsplit] at hweight
          have hrest : totalWeight (front.filterMap cache.held? ++ [entry]) -
              entry.weight = totalWeight (front.filterMap cache.held?) := by
            simp [totalWeight]
          simp only [LinkedCache.evictExcess, if_neg hexcess, hevict, hsplit,
            List.reverse_append, List.reverse_singleton, List.singleton_append]
          rw [RecencyOrder.shed, if_pos (hweight ▸ Nat.lt_of_not_le hexcess),
            hrest]
          rw [hcapacity, hentries] at hgone hkeeps
          refine ⟨?_, hkeeps⟩
          rw [hgone, List.reverse_cons, List.append_assoc]
          rfl

section Operations

variable [DecidableEq κ]

theorem Keeps.get (h : cache.Keeps order) (key : κ) :
    (cache.get key).1 = (order.get key).1 ∧
      (cache.get key).2.Keeps (order.get key).2 := by
  obtain ⟨path, hpath, rfl⟩ := h
  cases hindex : cache.index[key]? with
  | none =>
      obtain ⟨hfind, -⟩ := hpath.find?_of_none hindex
      simp only [LinkedCache.get, RecencyOrder.get, hindex, hfind]
      exact ⟨trivial, path, hpath, rfl⟩
  | some slot =>
      obtain ⟨before, after, entry, rfl, hentry, rfl⟩ :=
        hpath.split_of_some hindex
      obtain ⟨hfind, hothers⟩ := hpath.find?_of_split hentry
      have hsame := sameHoldings_touch cache slot
      have hheld : (cache.touch slot).held? = cache.held? := funext hsame.held?
      simp only [LinkedCache.get, RecencyOrder.get, hindex, hfind, hothers]
      constructor
      · have htouched := (hsame.held? slot).trans hentry
        obtain ⟨found, hfound, rfl⟩ := Option.map_eq_some_iff.1 htouched
        rw [hfound]
        rfl
      · refine ⟨_, hpath.touch, ?_⟩
        simp only [orderAlong, hheld, hsame.capacity, List.filterMap_cons,
          hentry]

theorem Keeps.remove [LawfulBEq κ] (h : cache.Keeps order) (key : κ) :
    (cache.remove key).1 = (order.remove key).1 ∧
      (cache.remove key).2.Keeps (order.remove key).2 := by
  obtain ⟨path, hpath, rfl⟩ := h
  cases hindex : cache.index[key]? with
  | none =>
      obtain ⟨hfind, hothers⟩ := hpath.find?_of_none hindex
      simp only [LinkedCache.remove, RecencyOrder.remove, hindex, hfind,
        hothers]
      exact ⟨rfl, path, hpath, rfl⟩
  | some slot =>
      obtain ⟨before, after, entry, rfl, hentry, rfl⟩ :=
        hpath.split_of_some hindex
      obtain ⟨hfind, hothers⟩ := hpath.find?_of_split hentry
      obtain ⟨found, cache', hdetach, hfound, hfilled, hindex', hcapacity,
        hheld⟩ := (hpath.filled.withIndex (cache.index.erase entry.key)).detach
      have hindexed : cache'.Indexed (before ++ after) :=
        hpath.indexed.erase hentry hindex' hheld
      have heq : entry = ⟨found.key, found.value, found.weight⟩ :=
        Option.some.inj (hentry.symm.trans hfound)
      simp only [LinkedCache.remove, RecencyOrder.remove, hindex, hfind,
        hothers, hdetach]
      refine ⟨by rw [heq]; rfl, before ++ after, ⟨hfilled, hindexed⟩, ?_⟩
      have hfresh : slot ∉ before ++ after :=
        (List.nodup_middle.1 hpath.filled.threaded.nodup).notMem
      have hrest : (before ++ after).filterMap cache'.held? =
          (before ++ after).filterMap cache.held? := by
        refine List.filterMap_congr fun other ho => ?_
        rw [hheld, if_neg (ne_of_mem_of_not_mem ho hfresh)]
        rfl
      rw [orderAlong, orderAlong, hrest, hcapacity]

theorem Keeps.put [LawfulBEq κ] (h : cache.Keeps order) (key : κ) (value : ν)
    (weight : Nat) :
    (cache.put key value weight).1 = (order.put key value weight).1 ∧
      (cache.put key value weight).2.Keeps (order.put key value weight).2 := by
  have hcapacity := h.capacity
  by_cases hlarge : order.capacity < weight
  · rw [RecencyOrder.put_of_lt hlarge, LinkedCache.put,
      if_pos (hcapacity ▸ hlarge)]
    exact ⟨rfl, (h.remove key).2⟩
  · have hsmall : weight ≤ cache.capacity := by omega
    rw [put_of_le key value hsmall, RecencyOrder.put, if_neg hlarge]
    obtain ⟨path, hpath, rfl⟩ := h
    obtain ⟨path', hconsistent, horder⟩ := hpath.stored key value weight
    have hevict := hconsistent.evictExcess []
      (Nat.le_of_eq hconsistent.indexed.size.symm)
    have hentries := congrArg RecencyOrder.entries horder
    have hcap := congrArg RecencyOrder.capacity horder
    simp only [orderAlong] at hentries hcap
    rw [hentries, hcap] at hevict
    exact hevict

end Operations

end TieredCache.LinkedCache
