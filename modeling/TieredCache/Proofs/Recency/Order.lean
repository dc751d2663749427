import Mathlib
import TieredCache.Recency.Order

/-!
# Laws of the order of use

Storing an entry splits the others into those that stay and those that leave,
and the ones that leave are at the back.  What was stored stays.
-/

namespace TieredCache

variable {κ ν : Type}

def WeightedEntry.pair (entry : WeightedEntry κ ν) : κ × ν :=
  (entry.key, entry.value)

namespace RecencyOrder

def pairs (order : RecencyOrder κ ν) : List (κ × ν) :=
  order.entries.map WeightedEntry.pair

/-! ## Weights -/

@[simp] theorem totalWeight_append (front back : List (WeightedEntry κ ν)) :
    totalWeight (front ++ back) = totalWeight front + totalWeight back := by
  induction front with
  | nil => simp [totalWeight]
  | cons entry rest ih =>
      simp only [List.cons_append, totalWeight, ih]
      omega

@[simp] theorem totalWeight_reverse (entries : List (WeightedEntry κ ν)) :
    totalWeight entries.reverse = totalWeight entries := by
  induction entries with
  | nil => rfl
  | cons entry rest ih =>
      rw [List.reverse_cons, totalWeight_append, ih]
      simp only [totalWeight]
      omega

theorem totalWeight_eq_sum (entries : List (WeightedEntry κ ν)) :
    totalWeight entries = (entries.map WeightedEntry.weight).sum := by
  induction entries with
  | nil => rfl
  | cons entry rest ih => rw [totalWeight, ih, List.map_cons, List.sum_cons]

theorem totalWeight_perm {first second : List (WeightedEntry κ ν)}
    (h : first.Perm second) : totalWeight first = totalWeight second := by
  induction h with
  | nil => rfl
  | cons entry _ ih => rw [totalWeight, totalWeight, ih]
  | swap entry other rest =>
      simp only [totalWeight]
      omega
  | trans _ _ ih ih' => exact ih.trans ih'

theorem totalWeight_le_of_sublist {first second : List (WeightedEntry κ ν)}
    (h : first.Sublist second) : totalWeight first ≤ totalWeight second := by
  induction h with
  | slnil => exact Nat.le_refl _
  | cons entry _ ih => exact ih.trans (Nat.le_add_left _ _)
  | cons_cons entry _ ih => exact Nat.add_le_add_left ih entry.weight

/-! ## Shedding -/

theorem shed_spec (capacity : Nat) (entries : List (WeightedEntry κ ν)) :
    ∃ gone kept, entries = gone ++ kept ∧
      shed capacity (totalWeight entries) entries =
        (gone.map WeightedEntry.pair, kept) ∧
      totalWeight kept ≤ capacity ∧
      ∀ front last, gone = front ++ [last] →
        capacity < last.weight + totalWeight kept := by
  induction entries with
  | nil => exact ⟨[], [], rfl, rfl, Nat.zero_le _, by simp⟩
  | cons entry rest ih =>
      by_cases hexcess : capacity < totalWeight (entry :: rest)
      · obtain ⟨gone, kept, rfl, hshed, hfits, hneeded⟩ := ih
        refine ⟨entry :: gone, kept, rfl, ?_, hfits, fun front last h => ?_⟩
        · have hrest : totalWeight (entry :: (gone ++ kept)) - entry.weight =
              totalWeight (gone ++ kept) := by
            simp only [totalWeight]
            omega
          rw [shed, if_pos hexcess, hrest, hshed]
          rfl
        · cases front with
          | nil =>
              obtain ⟨rfl, rfl⟩ := List.cons_eq_cons.1 h
              exact hexcess
          | cons first front =>
              exact hneeded front last (List.cons_eq_cons.1 h).2
      · exact ⟨[], entry :: rest, rfl, by rw [shed, if_neg hexcess]; rfl,
          Nat.le_of_not_lt hexcess, by simp⟩

theorem shed_of_le {capacity total : Nat} {entries : List (WeightedEntry κ ν)}
    (h : total ≤ capacity) : shed capacity total entries = ([], entries) := by
  cases entries with
  | nil => rfl
  | cons entry rest => rw [shed, if_neg (Nat.not_lt.2 h)]

/-! ## One key and the others -/

variable [DecidableEq κ]

theorem mem_others {order : RecencyOrder κ ν} {key : κ}
    {entry : WeightedEntry κ ν} :
    entry ∈ order.others key ↔ entry ∈ order.entries ∧ entry.key ≠ key := by
  simp [others]

theorem totalWeight_others_le (order : RecencyOrder κ ν) (key : κ) :
    totalWeight (order.others key) ≤ order.weight :=
  totalWeight_le_of_sublist List.filter_sublist

theorem pairs_others (order : RecencyOrder κ ν) (key : κ) :
    (order.others key).map WeightedEntry.pair =
      order.pairs.filter fun pair => pair.1 ≠ key := by
  rw [others, pairs, List.filter_map]
  rfl

theorem find?_of_split {order : RecencyOrder κ ν}
    {front back : List (WeightedEntry κ ν)} {entry : WeightedEntry κ ν}
    (hentries : order.entries = front ++ entry :: back)
    (hnodup : (order.entries.map WeightedEntry.key).Nodup) :
    order.find? entry.key = some entry ∧
      order.others entry.key = front ++ back := by
  rw [hentries, List.map_append, List.map_cons, List.nodup_middle,
    List.nodup_cons, ← List.map_append, List.mem_map] at hnodup
  have hother : ∀ other ∈ front ++ back, other.key ≠ entry.key :=
    fun other ho hkey => hnodup.1 ⟨other, ho, hkey⟩
  constructor
  · rw [find?, hentries, List.find?_append]
    have hfront : front.find? (fun other => other.key = entry.key) = none :=
      List.find?_eq_none.2 fun other ho => by
        simpa using hother other (List.mem_append_left _ ho)
    simp [hfront]
  · rw [others, hentries, List.filter_append,
      List.filter_cons_of_neg (by simp), ← List.filter_append,
      List.filter_eq_self]
    intro other ho
    simpa using hother other ho

theorem perm_cons_others {order : RecencyOrder κ ν} {key : κ}
    {entry : WeightedEntry κ ν}
    (hnodup : (order.entries.map WeightedEntry.key).Nodup)
    (hfind : order.find? key = some entry) :
    (entry :: order.others key).Perm order.entries := by
  obtain rfl : entry.key = key := by simpa using List.find?_some hfind
  obtain ⟨front, back, hentries⟩ :=
    List.append_of_mem (List.mem_of_find?_eq_some hfind)
  rw [(find?_of_split hentries hnodup).2, hentries]
  exact List.perm_middle.symm

theorem find?_of_absent {order : RecencyOrder κ ν} {key : κ}
    (habsent : ∀ entry ∈ order.entries, entry.key ≠ key) :
    order.find? key = none ∧ order.others key = order.entries := by
  constructor
  · rw [find?, List.find?_eq_none]
    intro entry hentry
    simpa using habsent entry hentry
  · rw [others, List.filter_eq_self]
    intro entry hentry
    simpa using habsent entry hentry

/-! ## Storing -/

theorem put_of_lt {order : RecencyOrder κ ν} {key : κ} {value : ν}
    {weight : Nat} (h : order.capacity < weight) :
    order.put key value weight =
      ([(key, value)], { order with entries := order.others key }) := by
  rw [put, if_pos h]

/-- Storing keeps the new entry and the front of the others; their back leaves,
the oldest first, unless everything fits. -/
theorem put_spec (order : RecencyOrder κ ν) (key : κ) (value : ν)
    {weight : Nat} (h : weight ≤ order.capacity) :
    ∃ kept lost, order.others key = kept ++ lost ∧
      order.put key value weight =
        (lost.reverse.map WeightedEntry.pair,
          { order with entries := ⟨key, value, weight⟩ :: kept }) ∧
      weight + totalWeight kept ≤ order.capacity ∧
      (weight + totalWeight (order.others key) ≤ order.capacity →
        lost = []) := by
  let entry : WeightedEntry κ ν := ⟨key, value, weight⟩
  obtain ⟨gone, rest, hsplit, hshed, hfits, hneeded⟩ :=
    shed_spec order.capacity (entry :: order.others key).reverse
  -- The new entry is the last to go, and it fits by itself.
  have hrest : ∃ kept, rest = kept ++ [entry] := by
    rcases List.eq_nil_or_concat' rest with rfl | ⟨kept, last, rfl⟩
    · rw [List.reverse_cons, List.append_nil] at hsplit
      have hlast : order.capacity < weight + 0 := hneeded _ _ hsplit.symm
      omega
    · rw [List.reverse_cons, ← List.append_assoc] at hsplit
      exact ⟨kept, by rw [(List.append_inj' hsplit rfl).2]⟩
  obtain ⟨kept, rfl⟩ := hrest
  rw [List.reverse_cons, ← List.append_assoc, List.append_cancel_right_eq,
    List.reverse_eq_iff, List.reverse_append] at hsplit
  rw [totalWeight_reverse] at hshed
  refine ⟨kept.reverse, gone.reverse, hsplit, ?_, ?_, fun hall => ?_⟩
  · rw [put, if_neg (Nat.not_lt.2 h)]
    dsimp only
    rw [hshed, List.reverse_reverse, List.reverse_append]
    rfl
  · simp only [totalWeight_append, totalWeight, entry] at hfits
    rw [totalWeight_reverse]
    omega
  · have hfits' : totalWeight (entry :: order.others key) ≤ order.capacity :=
      hall
    rw [shed_of_le hfits', Prod.mk.injEq, eq_comm, List.map_eq_nil_iff] at hshed
    rw [hshed.1, List.reverse_nil]

theorem ne_of_mem_put {order : RecencyOrder κ ν} {key : κ} {value : ν}
    {weight : Nat} (hfits : weight ≤ order.capacity) {pair : κ × ν}
    (hpair : pair ∈ (order.put key value weight).1) : pair.1 ≠ key := by
  obtain ⟨kept, lost, hothers, hput, -⟩ := order.put_spec key value hfits
  rw [hput, List.mem_map] at hpair
  obtain ⟨entry, hentry, rfl⟩ := hpair
  have hlost : entry ∈ order.others key := by
    rw [hothers]
    exact List.mem_append_right kept (List.mem_reverse.1 hentry)
  exact (mem_others.1 hlost).2

end RecencyOrder

end TieredCache
