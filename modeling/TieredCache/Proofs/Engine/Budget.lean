import Mathlib
import TieredCache.Proofs.Engine.Answers

/-!
# The budget of an engine

Pools are granted out of one RAM budget, in order, as long as there is something
left of it and fewer of them than an engine can have.  With its RAM each gets
its part of the logical capacity, rounded down; what rounding leaves over is
less than a byte for each pool.
-/

namespace TieredCache

/-! ## Parts of a whole -/

section Parts

variable {total whole : Nat} {parts : List Nat}

theorem mul_sum_shares (total whole : Nat) (parts : List Nat) :
    whole * (parts.map fun part => total * part / whole).sum +
        (parts.map fun part => total * part % whole).sum =
      total * parts.sum := by
  calc
    _ = (parts.map fun part =>
          whole * (total * part / whole) + total * part % whole).sum := by
      rw [List.sum_map_add, List.sum_map_mul_left]
    _ = (parts.map fun part => total * part).sum := by
      simp only [Nat.div_add_mod]
    _ = total * parts.sum := by
      rw [List.sum_map_mul_left, List.map_id']

theorem sum_shares_le (hwhole : 0 < whole) (hparts : parts.sum ≤ whole) :
    (parts.map fun part => total * part / whole).sum ≤ total := by
  have hsplit := mul_sum_shares total whole parts
  have hbound : total * parts.sum ≤ whole * total := by
    rw [Nat.mul_comm whole]
    exact Nat.mul_le_mul_left total hparts
  exact Nat.le_of_mul_le_mul_left (by omega) hwhole

theorem sum_rests_lt (hwhole : 0 < whole) (total : Nat)
    (hparts : parts ≠ []) :
    (parts.map fun part => total * part % whole).sum <
      whole * parts.length := by
  calc
    _ < (parts.map fun _ => whole).sum :=
      List.sum_lt_sum_of_ne_nil hparts _ _ fun part _ =>
        Nat.mod_lt (total * part) hwhole
    _ = whole * parts.length := by simp [Nat.mul_comm]

theorem lt_sum_shares_add (hwhole : 0 < whole) (hparts : parts.sum = whole) :
    total <
      (parts.map fun part => total * part / whole).sum + parts.length := by
  have hne : parts ≠ [] := by
    rintro rfl
    simp only [List.sum_nil] at hparts
    omega
  have hsplit := mul_sum_shares total whole parts
  have hrests := sum_rests_lt hwhole total hne
  rw [hparts, Nat.mul_comm total] at hsplit
  refine Nat.lt_of_mul_lt_mul_left (a := whole) ?_
  rw [Nat.mul_add]
  omega

end Parts

theorem Hierarchy.logicalCapacity_lt {hierarchy : Hierarchy}
    (h : hierarchy.large.capacity < byteLimit) :
    hierarchy.logicalCapacity < byteLimit := by
  unfold logicalCapacity
  split
  · exact h
  · have hpos : 0 < byteLimit := by decide
    omega

/-! ## Requests -/

structure Grant where
  number : Nat
  bytes : Nat
  deriving DecidableEq, Repr

namespace Engine

variable {engine next opened : Engine} {grants : List Grant} {name : String}
  {bytes : Nat}

def request (state : Engine × List Grant) (asked : String × Nat) :
    Engine × List Grant :=
  match state.1.addPool asked.1 asked.2 with
  | .error _ => state
  | .ok (number, next) => (next, state.2 ++ [⟨number, asked.2⟩])

def requests (engine : Engine) (asked : List (String × Nat)) :
    Engine × List Grant :=
  asked.foldl request (engine, [])

theorem requests_concat (engine : Engine) (asked : List (String × Nat))
    (last : String × Nat) :
    engine.requests (asked ++ [last]) = request (engine.requests asked) last := by
  simp [requests]

theorem addPool_eq_error_iff {e : EngineError} :
    engine.addPool name bytes = .error e ↔
      maxPools ≤ engine.pools.size ∧ e = .tooManyPools maxPools ∨
      engine.pools.size < maxPools ∧
        (bytes = 0 ∨ engine.available < bytes) ∧
        e = .poolTooLarge name bytes engine.available := by
  unfold addPool
  by_cases hmany : maxPools ≤ engine.pools.size
  · simp [hmany, eq_comm]
  · by_cases hlarge : bytes = 0 ∨ engine.available < bytes
    · simp [hmany, hlarge, eq_comm]
      omega
    · simp [hmany, hlarge]

theorem addPool_of_room (hfew : engine.pools.size < maxPools)
    (hpos : 0 < bytes) (hroom : bytes ≤ engine.available) (name : String) :
    engine.addPool name bytes = .ok (engine.pools.size,
      { engine with
        pools := engine.pools.push (Pool.empty bytes (engine.nvmShare bytes))
        reserved := engine.reserved + bytes }) := by
  rw [addPool, if_neg (Nat.not_le.2 hfew), if_neg]
  omega

/-- What an engine that has granted some pools has become since it was
opened. -/
structure Budgeted (engine opened : Engine) (grants : List Grant) : Prop where
  numbers : grants.map Grant.number = List.range grants.length
  pools : engine.pools.toList = grants.map fun grant =>
    Pool.empty grant.bytes (opened.nvmShare grant.bytes)
  few : grants.length ≤ maxPools
  ramBytes : engine.ramBytes = opened.ramBytes
  hierarchy : engine.hierarchy = opened.hierarchy
  reserved : engine.reserved = (grants.map Grant.bytes).sum
  within : engine.reserved ≤ opened.ramBytes

theorem Budgeted.size (h : engine.Budgeted opened grants) :
    engine.pools.size = grants.length := by
  rw [← Array.length_toList, h.pools, List.length_map]

theorem Budgeted.available (h : engine.Budgeted opened grants) :
    engine.available = opened.ramBytes - (grants.map Grant.bytes).sum := by
  rw [Engine.available, h.ramBytes, h.reserved]

theorem Budgeted.nvmShare (h : engine.Budgeted opened grants) (bytes : Nat) :
    engine.nvmShare bytes = opened.nvmShare bytes := by
  rw [Engine.nvmShare, h.hierarchy, h.ramBytes, Engine.nvmShare]

theorem exists_create {ramBytes : Nat} (hram : 0 < ramBytes)
    (hierarchy : Hierarchy) :
    ∃ opened, create ramBytes hierarchy = .ok opened := by
  rw [create, if_neg hram.ne']
  exact ⟨_, rfl⟩

theorem budgeted_create {ramBytes : Nat} {hierarchy : Hierarchy}
    (h : create ramBytes hierarchy = .ok opened) :
    opened.Budgeted opened [] := by
  rw [create_eq h]
  exact ⟨rfl, rfl, Nat.zero_le _, rfl, rfl, rfl, Nat.zero_le _⟩

theorem Budgeted.grant (h : engine.Budgeted opened grants)
    (hfew : engine.pools.size < maxPools) (hroom : bytes ≤ engine.available) :
    Budgeted
      { engine with
        pools := engine.pools.push (Pool.empty bytes (engine.nvmShare bytes))
        reserved := engine.reserved + bytes }
      opened (grants ++ [⟨engine.pools.size, bytes⟩]) := by
  rw [h.size] at hfew
  have hram := h.ramBytes
  have hwithin := h.within
  unfold Engine.available at hroom
  refine ⟨?_, ?_, ?_, h.ramBytes, h.hierarchy, ?_, ?_⟩
  · rw [List.map_append, h.numbers, List.length_append, List.length_singleton,
      List.range_succ, h.size]
    rfl
  · rw [Array.toList_push, h.pools, List.map_append, h.nvmShare]
    rfl
  · rw [List.length_append, List.length_singleton]
    exact hfew
  · simp [h.reserved]
  · simp only
    omega

theorem Budgeted.request {state : Engine × List Grant}
    (h : state.1.Budgeted opened state.2) (asked : String × Nat) :
    (request state asked).1.Budgeted opened (request state asked).2 := by
  unfold Engine.request
  cases hadd : state.1.addPool asked.1 asked.2 with
  | error e => exact h
  | ok added =>
      have hgranted := hadd
      unfold addPool at hgranted
      split at hgranted
      · cases hgranted
      · split at hgranted
        · cases hgranted
        · rename_i hfew hroom
          cases hgranted
          exact h.grant (by omega) (by omega)

theorem budgeted_requests {ramBytes : Nat} {hierarchy : Hierarchy}
    (h : create ramBytes hierarchy = .ok opened)
    (asked : List (String × Nat)) :
    (opened.requests asked).1.Budgeted opened (opened.requests asked).2 := by
  induction asked using List.reverseRecOn with
  | nil => exact budgeted_create h
  | append_singleton asked last ih =>
      rw [requests_concat]
      exact ih.request last

/-! ## The budget -/

/-- However pools are asked for, those that are granted are known by consecutive
numbers, and the RAM that they take adds up and stays within that of the engine.
A request is refused because there are 64 pools, or else because it is for no
bytes or more than are left, and then nothing changes.  The parts of the logical
capacity that go with the pools are rounded down, fit a word, do not add up to
more than all of it, and to less only by rounding where no RAM is left. -/
theorem pools_share_budget (ramBytes : Nat) (hierarchy : Hierarchy)
    (hram : 0 < ramBytes) (asked : List (String × Nat)) :
    ∃ opened, create ramBytes hierarchy = .ok opened ∧
      let reached := (opened.requests asked).1
      let grants := (opened.requests asked).2
      let reserved := (grants.map Grant.bytes).sum
      let capacity := hierarchy.logicalCapacity
      let shares := grants.map fun grant => capacity * grant.bytes / ramBytes
      grants.map Grant.number = List.range grants.length ∧
      reached.reserved = reserved ∧ reserved ≤ ramBytes ∧
      (∀ name bytes e, reached.addPool name bytes = .error e ↔
        grants.length = 64 ∧ e = .tooManyPools 64 ∨
        grants.length < 64 ∧ (bytes = 0 ∨ ramBytes - reserved < bytes) ∧
          e = .poolTooLarge name bytes (ramBytes - reserved)) ∧
      (∀ name bytes e, reached.addPool name bytes = .error e →
        opened.requests (asked ++ [(name, bytes)]) = (reached, grants)) ∧
      reached.pools.toList.map (fun pool => (pool.ramBytes, pool.nvm.capacity)) =
        (grants.map Grant.bytes).zip shares ∧
      (hierarchy.large.capacity < 2 ^ 64 →
        (∀ share ∈ shares, share < 2 ^ 64) ∧
        (ramBytes < 2 ^ 64 →
          ∀ grant ∈ grants, capacity * grant.bytes < 2 ^ 128)) ∧
      shares.sum ≤ capacity ∧
      (reserved = ramBytes → capacity < shares.sum + grants.length) := by
  obtain ⟨opened, hcreate⟩ := exists_create hram hierarchy
  refine ⟨opened, hcreate, ?_⟩
  intro reached grants reserved capacity shares
  have h : reached.Budgeted opened grants := budgeted_requests hcreate asked
  have hopened := create_eq hcreate
  have hopenedRam : opened.ramBytes = ramBytes := by rw [hopened]
  have hshare : ∀ bytes, opened.nvmShare bytes =
      capacity * bytes / ramBytes := by
    intro bytes
    rw [nvmShare, hopened]
  have hreserved : reached.reserved = reserved := h.reserved
  have hwithin : reserved ≤ ramBytes := by
    rw [← hreserved, ← hopenedRam]
    exact h.within
  have hshares : shares = (grants.map Grant.bytes).map fun bytes =>
      capacity * bytes / ramBytes := by
    rw [List.map_map]
    rfl
  have hsum : shares.sum ≤ capacity := by
    rw [hshares]
    exact sum_shares_le hram hwithin
  refine ⟨h.numbers, hreserved, hwithin, ?_, ?_, ?_, ?_, hsum, ?_⟩
  · intro name bytes e
    have hfew : grants.length ≤ 64 := h.few
    rw [addPool_eq_error_iff, h.size, h.available, hopenedRam]
    change 64 ≤ grants.length ∧ e = .tooManyPools 64 ∨ _ ↔ _
    rw [show 64 ≤ grants.length ↔ grants.length = 64 by omega]
    rfl
  · intro name bytes e hrefused
    have hsame : request (reached, grants) (name, bytes) =
        (reached, grants) := by
      simp only [request, hrefused]
    rw [requests_concat]
    exact hsame
  · rw [h.pools, hshares, List.map_map, List.map_map, List.zip_map']
    refine List.map_congr_left fun grant _ => ?_
    simp [Pool.empty, NvmTier.empty, hshare]
  · intro hlarge
    have hcapacity : capacity < 2 ^ 64 := Hierarchy.logicalCapacity_lt hlarge
    constructor
    · intro share hmem
      exact ((List.le_sum_of_mem hmem).trans hsum).trans_lt hcapacity
    · intro hfits grant hmem
      have hbytes : grant.bytes ≤ reserved :=
        List.le_sum_of_mem (List.mem_map_of_mem hmem)
      have hgrant : grant.bytes < 2 ^ 64 := (hbytes.trans hwithin).trans_lt hfits
      calc
        _ < 2 ^ 64 * 2 ^ 64 := Nat.mul_lt_mul'' hcapacity hgrant
        _ = 2 ^ 128 := by decide
  · intro hspent
    have hlt : capacity < _ := lt_sum_shares_add hram hspent
    rw [← hshares, List.length_map] at hlt
    exact hlt

/-- Two pools take all eight bytes, between requests for none and for too many;
one byte of the logical capacity is left over. -/
theorem pools_share_budget_twoPools :
    0 < 8 ∧ ∃ opened, create 8 Session.smallHierarchy = .ok opened ∧
      let asked := [("a", 3), ("b", 0), ("c", 6), ("d", 5)]
      (opened.requests asked).2 = [⟨0, 3⟩, ⟨1, 5⟩] ∧
      (opened.requests asked).1.addPool "e" 1 =
        .error (.poolTooLarge "e" 1 0) ∧
      (opened.requests asked).1.pools.toList.map
          (fun pool => (pool.ramBytes, pool.nvm.capacity)) =
        [(3, 5), (5, 8)] := by
  refine ⟨by decide, ?_⟩
  obtain ⟨opened, hcreate, -, -, -, hrefused, -, hpools, -⟩ :=
    pools_share_budget 8 Session.smallHierarchy (by decide)
      [("a", 3), ("b", 0), ("c", 6), ("d", 5)]
  cases hcreate
  exact ⟨_, rfl, rfl, (hrefused "e" 1 _).2 (.inr (by decide)), hpools⟩

end Engine

end TieredCache
