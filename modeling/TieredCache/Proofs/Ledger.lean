import Mathlib
import TieredCache.Engine.Nvm

/-!
# Ledgers

A ledger lists what a key-value store ought to hold, each key once.  The order
of a ledger means nothing: what it says of a key and how many bytes it takes are
the same for every permutation of it.
-/

namespace TieredCache

abbrev Ledger (ν : Type) := List (Bytes × ν)

namespace Ledger

variable {ν : Type} {ledger ledger' : Ledger ν} {key other : Bytes} {value : ν}

def keys (ledger : Ledger ν) : List Bytes := ledger.map Prod.fst

def value? (ledger : Ledger ν) (key : Bytes) : Option ν :=
  (ledger.find? fun pair => pair.1 = key).map Prod.snd

def erase (ledger : Ledger ν) (key : Bytes) : Ledger ν :=
  ledger.filter fun pair => pair.1 ≠ key

def set (ledger : Ledger ν) (key : Bytes) (value : ν) : Ledger ν :=
  (key, value) :: ledger.erase key

def eraseAll (ledger : Ledger ν) (gone : List Bytes) : Ledger ν :=
  ledger.filter fun pair => pair.1 ∉ gone

def size (ledger : Ledger Bytes) : Nat :=
  (ledger.map fun pair => entrySize pair.1 pair.2).sum

/-! ## Members -/

theorem mem_keys : key ∈ ledger.keys ↔ ∃ value, (key, value) ∈ ledger := by
  simp [keys]

theorem mem_erase : (other, value) ∈ ledger.erase key ↔
    (other, value) ∈ ledger ∧ other ≠ key := by
  simp [erase]

theorem mem_keys_erase : other ∈ (ledger.erase key).keys ↔
    other ∈ ledger.keys ∧ other ≠ key := by
  simp only [mem_keys, mem_erase, exists_and_right]

theorem mem_keys_set : other ∈ (ledger.set key value).keys ↔
    other = key ∨ other ∈ ledger.keys := by
  change other ∈ key :: (ledger.erase key).keys ↔ _
  rw [List.mem_cons, mem_keys_erase]
  by_cases heq : other = key <;> simp [heq]

theorem mem_keys_eraseAll {gone : List Bytes} :
    other ∈ (ledger.eraseAll gone).keys ↔
      other ∈ ledger.keys ∧ other ∉ gone := by
  simp only [mem_keys, eraseAll, List.mem_filter, decide_eq_true_eq,
    exists_and_right]

theorem keys_append : keys (ledger ++ ledger') = ledger.keys ++ ledger'.keys :=
  List.map_append

theorem erase_append : erase (ledger ++ ledger') key =
    ledger.erase key ++ ledger'.erase key :=
  List.filter_append _ _

@[simp] theorem erase_erase :
    (ledger.erase key).erase key = ledger.erase key := by
  simp [erase, List.filter_filter]

theorem set_perm (h : ledger.Perm ledger') :
    (ledger.set key value).Perm (ledger'.set key value) :=
  (h.filter _).cons _

theorem nodup_erase (h : ledger.keys.Nodup) : (ledger.erase key).keys.Nodup :=
  h.sublist (List.filter_sublist.map _)

theorem nodup_set (h : ledger.keys.Nodup) :
    (ledger.set key value).keys.Nodup :=
  List.nodup_cons.2 ⟨fun hmem => (mem_keys_erase.1 hmem).2 rfl, nodup_erase h⟩

@[simp] theorem eraseAll_nil : ledger.eraseAll [] = ledger := by
  simp [eraseAll]

theorem erase_of_notMem (h : key ∉ ledger.keys) :
    ledger.erase key = ledger := by
  rw [erase, List.filter_eq_self]
  rintro ⟨other, value⟩ hpair
  have hne : other ≠ key := fun heq => h (heq ▸ mem_keys.2 ⟨value, hpair⟩)
  simpa using hne

/-! ## Values -/

theorem value?_eq_some_iff (h : ledger.keys.Nodup) :
    ledger.value? key = some value ↔ (key, value) ∈ ledger := by
  induction ledger with
  | nil => simp [value?]
  | cons pair rest ih =>
      obtain ⟨first, stored⟩ := pair
      obtain ⟨hfirst, hrest⟩ := List.nodup_cons.1 h
      by_cases heq : first = key
      · subst heq
        have habsent : (first, value) ∉ rest := fun hmem =>
          hfirst (mem_keys.2 ⟨value, hmem⟩)
        simp [value?, habsent, eq_comm]
      · have ih' := ih hrest
        simp only [value?] at ih'
        simp [value?, heq, Ne.symm heq, ih']

theorem mem_of_value? (h : ledger.value? key = some value) :
    (key, value) ∈ ledger := by
  obtain ⟨⟨first, stored⟩, hfind, rfl⟩ := Option.map_eq_some_iff.1 h
  have hfirst := List.find?_some hfind
  rw [decide_eq_true_eq] at hfirst
  subst hfirst
  exact List.mem_of_find?_eq_some hfind

theorem value?_eq_none_iff : ledger.value? key = none ↔ key ∉ ledger.keys := by
  rw [value?, Option.map_eq_none_iff, List.find?_eq_none, mem_keys]
  constructor
  · rintro h ⟨value, hmem⟩
    simpa using h _ hmem
  · rintro h ⟨other, value⟩ hmem
    have hne : other ≠ key := fun heq => h ⟨value, heq ▸ hmem⟩
    simpa using hne

theorem value?_perm (h : ledger.Perm ledger') (hnodup : ledger.keys.Nodup) :
    ledger.value? key = ledger'.value? key := by
  have hnodup' : ledger'.keys.Nodup := (h.map Prod.fst).nodup_iff.1 hnodup
  ext value
  rw [value?_eq_some_iff hnodup, value?_eq_some_iff hnodup', h.mem_iff]

theorem value?_append : value? (ledger ++ ledger') key =
    (ledger.value? key).or (ledger'.value? key) := by
  rw [value?, List.find?_append]
  cases h : ledger.find? fun pair => pair.1 = key <;> simp [value?, h]

theorem value?_filter (keep : Bytes → Bool) (ledger : Ledger ν) (key : Bytes) :
    value? (ledger.filter fun pair => keep pair.1) key =
      if keep key then ledger.value? key else none := by
  induction ledger with
  | nil => simp [value?]
  | cons pair rest ih =>
      obtain ⟨first, stored⟩ := pair
      by_cases heq : first = key
      · subst heq
        by_cases hkeep : keep first
        · simp [value?, hkeep]
        · simpa [hkeep] using ih
      · have hskip :
            value? ((first, stored) :: rest) key = value? rest key := by
          simp [value?, heq]
        rw [hskip, ← ih]
        by_cases hkeep : keep first <;> simp [value?, hkeep, heq]

theorem value?_erase : (ledger.erase key).value? other =
    if other = key then none else ledger.value? other := by
  have h := value?_filter (fun first => decide (first ≠ key)) ledger other
  by_cases heq : other = key
  · rw [if_pos heq]
    simpa [erase, heq] using h
  · rw [if_neg heq]
    simpa [erase, heq] using h

theorem value?_eraseAll {gone : List Bytes} :
    (ledger.eraseAll gone).value? key =
      if key ∈ gone then none else ledger.value? key := by
  have h := value?_filter (fun first => decide (first ∉ gone)) ledger key
  by_cases hmem : key ∈ gone
  · rw [if_pos hmem]
    simpa [eraseAll, hmem] using h
  · rw [if_neg hmem]
    simpa [eraseAll, hmem] using h

theorem value?_set : (ledger.set key value).value? other =
    if other = key then some value else ledger.value? other := by
  by_cases heq : other = key
  · simp [set, value?, heq]
  · have hskip : (ledger.set key value).value? other =
        (ledger.erase key).value? other := by
      simp [set, value?, Ne.symm heq]
    rw [if_neg heq, hskip, value?_erase, if_neg heq]

/-! ## Sizes -/

theorem size_perm {ledger ledger' : Ledger Bytes} (h : ledger.Perm ledger') :
    ledger.size = ledger'.size :=
  (h.map _).sum_nat

@[simp] theorem size_append (front back : Ledger Bytes) :
    size (front ++ back) = size front + size back := by
  simp [size]

@[simp] theorem size_cons (key value : Bytes) (rest : Ledger Bytes) :
    size ((key, value) :: rest) = entrySize key value + size rest := by
  simp [size]

theorem perm_cons_erase (h : ledger.keys.Nodup) (hmem : (key, value) ∈ ledger) :
    ledger.Perm ((key, value) :: ledger.erase key) := by
  obtain ⟨front, back, rfl⟩ := List.append_of_mem hmem
  rw [keys, List.map_append, List.map_cons, List.nodup_middle,
    List.nodup_cons, ← List.map_append] at h
  have herase : erase (front ++ (key, value) :: back) key = front ++ back := by
    rw [erase, List.filter_append, List.filter_cons_of_neg (by simp),
      ← List.filter_append]
    exact erase_of_notMem h.1
  rw [herase]
  exact List.perm_middle

theorem size_le_of_sublist {ledger ledger' : Ledger Bytes}
    (h : ledger.Sublist ledger') : ledger.size ≤ ledger'.size :=
  (h.map _).sum_le_sum fun _ _ => Nat.zero_le _

theorem size_erase_le (ledger : Ledger Bytes) (key : Bytes) :
    (ledger.erase key).size ≤ ledger.size :=
  size_le_of_sublist List.filter_sublist

theorem size_le_mul {ledger : Ledger Bytes} {keys : List Bytes} {size : Nat}
    (hnodup : ledger.keys.Nodup)
    (h : ∀ key value, (key, value) ∈ ledger →
      key ∈ keys ∧ entrySize key value ≤ size) :
    ledger.size ≤ keys.length * size := by
  have hkeys : ledger.keys ⊆ keys := by
    intro key hkey
    obtain ⟨value, hpair⟩ := mem_keys.1 hkey
    exact (h key value hpair).1
  have hlength := (List.subperm_of_subset hnodup hkeys).length_le
  have hsum : ledger.size ≤ ledger.length * size := by
    rw [Ledger.size, ← smul_eq_mul,
      ← List.length_map (f := fun pair : Bytes × Bytes =>
        entrySize pair.1 pair.2)]
    apply List.sum_le_card_nsmul
    intro bytes hbytes
    obtain ⟨⟨key, value⟩, hpair, rfl⟩ := List.mem_map.1 hbytes
    exact (h key value hpair).2
  rw [Ledger.keys, List.length_map] at hlength
  exact hsum.trans (Nat.mul_le_mul_right size hlength)

theorem perm_eraseAll {kept gone : Ledger ν} (h : (kept ++ gone).Perm ledger)
    (hnodup : ledger.keys.Nodup) : kept.Perm (ledger.eraseAll gone.keys) := by
  have hnodup' : (kept ++ gone).keys.Nodup :=
    (h.map Prod.fst).nodup_iff.2 hnodup
  rw [keys_append] at hnodup'
  have hkept : ∀ pair ∈ kept, pair.1 ∉ gone.keys := fun pair hpair =>
    List.disjoint_of_nodup_append hnodup' (List.mem_map_of_mem hpair)
  have hfilter : (kept ++ gone).eraseAll gone.keys = kept := by
    rw [eraseAll, List.filter_append, List.filter_eq_self.2,
      List.filter_eq_nil_iff.2, List.append_nil]
    · intro pair hpair
      have hkey : pair.1 ∈ gone.keys := List.mem_map_of_mem hpair
      simpa using hkey
    · intro pair hpair
      simpa using hkept pair hpair
  rw [← hfilter]
  exact h.filter _

end Ledger

end TieredCache
