import Mathlib
import TieredCache.Proofs.Recency.Refinement

/-!
# What a bounded cache answers

Linked slots and the order of use give the same answers to the same calls, and
hold as many entries of the same weight after them.  The weight never exceeds
the capacity, and an entry that fits by itself never gives way to itself.
-/

namespace TieredCache

/-! ## Calls in a row -/

section Runs

variable {σ τ ι β : Type} {perform : σ → ι → β × σ} {perform' : τ → ι → β × τ}

def performAll (perform : σ → ι → β × σ) (state : σ) : List ι → List β × σ
  | [] => ([], state)
  | call :: rest =>
      let (answer, next) := perform state call
      let (answers, last) := performAll perform next rest
      (answer :: answers, last)

/-- Two ways to answer that agree from related states agree on calls in a row. -/
theorem performAll_agree {Related : σ → τ → Prop}
    (hagree : ∀ state state' call, Related state state' →
      (perform state call).1 = (perform' state' call).1 ∧
        Related (perform state call).2 (perform' state' call).2)
    {state : σ} {state' : τ} (hstate : Related state state')
    (calls : List ι) :
    (performAll perform state calls).1 = (performAll perform' state' calls).1 ∧
      Related (performAll perform state calls).2
        (performAll perform' state' calls).2 := by
  induction calls generalizing state state' with
  | nil => exact ⟨rfl, hstate⟩
  | cons call rest ih =>
      obtain ⟨hanswer, hnext⟩ := hagree state state' call hstate
      obtain ⟨hanswers, hlast⟩ := ih hnext
      exact ⟨congrArg₂ List.cons hanswer hanswers, hlast⟩

end Runs

/-! ## Calls on a cache -/

inductive CacheCall (κ ν : Type) where
  | get (key : κ)
  | remove (key : κ)
  | put (key : κ) (value : ν) (weight : Nat)
  deriving DecidableEq, Repr

inductive CacheAnswer (κ ν : Type) where
  | value (found : Option ν)
  | evicted (gone : List (κ × ν))
  deriving DecidableEq, Repr

variable {κ ν : Type} [DecidableEq κ]

/-! ## Calls on the order of use -/

namespace RecencyOrder

variable {order : RecencyOrder κ ν}

def perform (order : RecencyOrder κ ν) :
    CacheCall κ ν → CacheAnswer κ ν × RecencyOrder κ ν
  | .get key => (.value (order.get key).1, (order.get key).2)
  | .remove key => (.value (order.remove key).1, (order.remove key).2)
  | .put key value weight =>
      (.evicted (order.put key value weight).1,
        (order.put key value weight).2)

theorem capacity_perform (order : RecencyOrder κ ν) (call : CacheCall κ ν) :
    (order.perform call).2.capacity = order.capacity := by
  cases call with
  | get key =>
      simp only [perform, get]
      cases order.find? key <;> rfl
  | remove key => rfl
  | put key value weight =>
      simp only [perform, put]
      split <;> rfl

theorem weight_perform_le
    (hnodup : (order.entries.map WeightedEntry.key).Nodup)
    (hfits : order.weight ≤ order.capacity) (call : CacheCall κ ν) :
    (order.perform call).2.weight ≤ order.capacity := by
  cases call with
  | get key =>
      simp only [perform, get]
      cases hfind : order.find? key with
      | none => exact hfits
      | some entry =>
          have hperm := perm_cons_others hnodup hfind
          exact (totalWeight_perm hperm).le.trans hfits
  | remove key => exact (totalWeight_others_le order key).trans hfits
  | put key value weight =>
      by_cases hlarge : order.capacity < weight
      · simp only [perform, put_of_lt hlarge]
        exact (totalWeight_others_le order key).trans hfits
      · obtain ⟨kept, lost, -, hput, hweight, -⟩ :=
          order.put_spec key value (Nat.le_of_not_lt hlarge)
        simp only [perform, hput]
        exact hweight

end RecencyOrder

/-! ## Calls on linked slots -/

namespace LinkedCache

variable [BEq κ] [Hashable κ] {cache : LinkedCache κ ν}
  {order : RecencyOrder κ ν} {capacity : Nat}

def perform (cache : LinkedCache κ ν) :
    CacheCall κ ν → CacheAnswer κ ν × LinkedCache κ ν
  | .get key => (.value (cache.get key).1, (cache.get key).2)
  | .remove key => (.value (cache.remove key).1, (cache.remove key).2)
  | .put key value weight =>
      (.evicted (cache.put key value weight).1,
        (cache.put key value weight).2)

/-- A cache keeps an order of use that is within a capacity. -/
structure Follows (capacity : Nat) (cache : LinkedCache κ ν)
    (order : RecencyOrder κ ν) : Prop where
  keeps : cache.Keeps order
  fits : order.weight ≤ capacity
  capacity : order.capacity = capacity

variable [LawfulBEq κ]

theorem Keeps.perform (h : cache.Keeps order) (call : CacheCall κ ν) :
    (cache.perform call).1 = (order.perform call).1 ∧
      (cache.perform call).2.Keeps (order.perform call).2 := by
  cases call with
  | get key =>
      obtain ⟨hvalue, hnext⟩ := h.get key
      exact ⟨congrArg CacheAnswer.value hvalue, hnext⟩
  | remove key =>
      obtain ⟨hvalue, hnext⟩ := h.remove key
      exact ⟨congrArg CacheAnswer.value hvalue, hnext⟩
  | put key value weight =>
      obtain ⟨hgone, hnext⟩ := h.put key value weight
      exact ⟨congrArg CacheAnswer.evicted hgone, hnext⟩

theorem Follows.perform (h : cache.Follows capacity order)
    (call : CacheCall κ ν) :
    (cache.perform call).1 = (order.perform call).1 ∧
      (cache.perform call).2.Follows capacity (order.perform call).2 := by
  obtain ⟨hkeeps, hfits, rfl⟩ := h
  obtain ⟨hanswer, hnext⟩ := hkeeps.perform call
  exact ⟨hanswer, hnext,
    RecencyOrder.weight_perform_le hkeeps.keys_nodup hfits call,
    order.capacity_perform call⟩

theorem Follows.weight_stored_le (h : cache.Follows capacity order)
    (key : κ) (value : ν) {weight : Nat} (hfits : weight ≤ capacity) :
    (cache.stored key value weight).weight ≤ 2 * capacity := by
  obtain ⟨path, hpath, rfl⟩ := h.keeps
  obtain ⟨path', hconsistent, horder⟩ := hpath.stored key value weight
  have hweight : (cache.stored key value weight).weight =
      weight + RecencyOrder.totalWeight
        ((cache.orderAlong path).others key) := by
    rw [hconsistent.filled.weight]
    exact congrArg RecencyOrder.weight horder
  have hothers :=
    RecencyOrder.totalWeight_others_le (cache.orderAlong path) key
  have hbefore := h.fits
  omega

/-- After any calls on an empty cache, linked slots have answered as the order
of use does, and agree with it on size, weight and emptiness.  Its keys are
distinct and its weight is within the capacity, and an entry that fits by itself
is not among what it evicts, for which the weight at most doubles. -/
theorem answers_as_recency_order (capacity : Nat)
    (calls : List (CacheCall κ ν)) :
    let cached := performAll perform (empty capacity) calls
    let listed :=
      performAll RecencyOrder.perform (RecencyOrder.empty capacity) calls
    cached.1 = listed.1 ∧
      cached.2.size = listed.2.entries.length ∧
      cached.2.weight = listed.2.weight ∧
      cached.2.isEmpty = listed.2.entries.isEmpty ∧
      (listed.2.entries.map WeightedEntry.key).Nodup ∧
      listed.2.capacity = capacity ∧
      cached.2.weight ≤ capacity ∧
      ∀ key value weight, weight ≤ capacity →
        (∀ pair ∈ (cached.2.put key value weight).1, pair.1 ≠ key) ∧
          (cached.2.stored key value weight).weight ≤ 2 * capacity := by
  intro cached listed
  have hstart : (empty capacity : LinkedCache κ ν).Follows capacity
      (.empty capacity) :=
    ⟨keeps_empty capacity, Nat.zero_le _, rfl⟩
  have hcall (cache : LinkedCache κ ν) (order : RecencyOrder κ ν)
      (call : CacheCall κ ν) (h : cache.Follows capacity order) :=
    h.perform call
  obtain ⟨hanswers, h⟩ := performAll_agree hcall hstart calls
  refine ⟨hanswers, h.keeps.size, h.keeps.weight, h.keeps.isEmpty,
    h.keeps.keys_nodup, h.capacity, h.keeps.weight.le.trans h.fits, ?_⟩
  intro key value weight hfits
  refine ⟨?_, h.weight_stored_le key value hfits⟩
  intro pair hpair
  rw [(h.keeps.put key value weight).1] at hpair
  exact RecencyOrder.ne_of_mem_put (hfits.trans h.capacity.ge) hpair

/-- Overwriting with another weight, a lookup and an entry that is too heavy
decide what a later entry evicts. -/
theorem answers_as_recency_order_threeKeys :
    (performAll perform (empty 10 : LinkedCache Nat String)
      [.put 1 "a" 3, .put 2 "b" 3, .put 1 "c" 4, .get 2, .put 3 "d" 11,
        .put 3 "e" 6, .remove 1, .remove 2]).1 =
      [.evicted [], .evicted [], .evicted [], .value (some "b"),
        .evicted [(3, "d")], .evicted [(1, "c")], .value none,
        .value (some "b")] := by
  rw [(answers_as_recency_order 10 _).1]
  rfl

end LinkedCache

end TieredCache
