import Mathlib
import TieredCache.Proofs.Engine.Accounts

/-!
# Evictions from RAM

What RAM evicts is demoted or dropped, each entry once.  The evictions from RAM
that are counted are the demotions alone; drops are counted apart.
-/

namespace TieredCache

def Departure.key : Departure → Bytes
  | .demoted key _ => key
  | .dropped key => key

theorem length_departures (departures : List Departure) :
    (demotedSizes departures).length + (droppedKeys departures).length =
      departures.length := by
  induction departures with
  | nil => rfl
  | cons departure rest ih =>
      cases departure with
      | demoted key size =>
          simp only [demotedSizes, droppedKeys, List.filterMap_cons,
            List.length_cons] at ih ⊢
          omega
      | dropped key =>
          simp only [demotedSizes, droppedKeys, List.filterMap_cons,
            List.length_cons] at ih ⊢
          omega

theorem NvmTier.keys_receive (tier : NvmTier)
    (evicted : List (Bytes × Bytes)) :
    (tier.receive evicted).2.map Departure.key = evicted.map Prod.fst := by
  induction evicted generalizing tier with
  | nil => rfl
  | cons entry rest ih =>
      obtain ⟨key, value⟩ := entry
      rw [receive_cons]
      by_cases hroom : tier.bytesWith key value ≤ tier.capacity
      · simp [hroom, Departure.key, ih]
      · simp [hroom, Departure.key, ih]

namespace Pool

def evicted (pool : Pool) : ItemCall → List (Bytes × Bytes)
  | .install handle =>
      (pool.ram.put handle.key handle.memory
        (entrySize handle.key handle.memory)).1
  | .find _ key =>
      match pool.ram.get key, pool.nvm.items[key]? with
      | (none, ram), some value =>
          (ram.put key value (entrySize key value)).1
      | _, _ => []
  | .remove _ _ => []

theorem keys_departures (pool : Pool) (call : ItemCall) :
    (pool.departures call).map Departure.key =
      (pool.evicted call).map Prod.fst := by
  cases call with
  | install handle => exact NvmTier.keys_receive _ _
  | find id key =>
      rcases pool.find_cases key with ⟨value, ram, hget, hfind⟩ |
        ⟨ram, hget, hitem, hfind⟩ | ⟨value, ram, hget, hitem, hfind⟩
      · simp [departures, evicted, hget, hfind]
      · simp [departures, evicted, hget, hitem, hfind]
      · simp only [departures, evicted, hget, hitem, hfind]
        exact NvmTier.keys_receive _ _
  | remove id key => rfl

theorem length_evicted (pool : Pool) (call : ItemCall) :
    (pool.evicted call).length =
      (demotedSizes (pool.departures call)).length +
        (droppedKeys (pool.departures call)).length := by
  have hkeys := congrArg List.length (pool.keys_departures call)
  rw [List.length_map, List.length_map] at hkeys
  rw [← hkeys, length_departures]

end Pool

/-! ## Sessions -/

namespace Engine

def evicted (engine : Engine) (call : ItemCall) : Nat :=
  match engine.pools[call.pool]? with
  | some pool => (pool.evicted call).length
  | none => 0

theorem evictions_perform (engine : Engine) (call : ItemCall) :
    (engine.perform call).counters.ramEvictions +
        (engine.perform call).counters.nvmEvictions =
      engine.counters.ramEvictions + engine.counters.nvmEvictions +
        engine.evicted call := by
  cases hpool : engine.pools[call.pool]? with
  | some pool =>
      obtain ⟨hdemoted, hdropped⟩ :=
        engine.counters.evictions_countCall pool call
      have hevicted := pool.length_evicted call
      rw [perform_eq hpool]
      simp only [evicted, hpool, setPool, hdemoted, hdropped]
      omega
  | none =>
      rw [perform_of_absent hpool]
      simp only [evicted, hpool, Nat.add_zero]

end Engine

namespace Session

def evicted (session : Session) (call : EngineCall) : Nat :=
  match session.item? call with
  | some item => session.engine.evicted item
  | none => 0

theorem evictions_perform (session : Session) (call : EngineCall) :
    (session.perform call).engine.counters.ramEvictions +
        (session.perform call).engine.counters.nvmEvictions =
      session.engine.counters.ramEvictions +
        session.engine.counters.nvmEvictions + session.evicted call := by
  unfold evicted
  cases hitem : session.item? call with
  | some item =>
      rw [(engine_perform hitem).1]
      exact session.engine.evictions_perform item
  | none =>
      rcases engine_perform_other hitem with hsame | ⟨name, bytes, number, hadd⟩
      · rw [hsame]
        rfl
      · rw [(Engine.addPool_eq hadd).2.2]
        rfl

theorem evictions_run {ramBytes : Nat} {hierarchy : Hierarchy} {engine : Engine}
    (h : Engine.create ramBytes hierarchy = .ok engine)
    (calls : List EngineCall) :
    let counters := ((start engine).run calls).engine.counters
    counters.ramEvictions + counters.nvmEvictions =
      (start engine).sumOver evicted calls := by
  induction calls using List.reverseRecOn with
  | nil =>
      rw [Engine.create_eq h]
      rfl
  | append_singleton calls call ih =>
      have hcall := evictions_perform ((start engine).run calls) call
      simp only [run_concat, sumOver_concat] at ih ⊢
      omega

theorem nvmEvictions_run {ramBytes : Nat} {hierarchy : Hierarchy}
    {engine : Engine} (h : Engine.create ramBytes hierarchy = .ok engine)
    (calls : List EngineCall) :
    ((start engine).run calls).engine.counters.nvmEvictions =
      (start engine).sumOver (fun session call => (session.dropped call).length)
        calls := by
  induction calls using List.reverseRecOn with
  | nil =>
      rw [Engine.create_eq h]
      rfl
  | append_singleton calls call ih =>
      rw [run_concat, sumOver_concat, (sound_run h calls).nvmEvictions_perform,
        ih]

/-- After any session the evictions from either tier that were counted are
together what RAM evicted, and those from RAM are all of it just when no call
dropped anything. -/
theorem ram_evictions_leave_out_drops {ramBytes : Nat} {hierarchy : Hierarchy}
    {engine : Engine} (hcreate : Engine.create ramBytes hierarchy = .ok engine)
    (calls : List EngineCall) :
    let counters := ((start engine).run calls).engine.counters
    counters.ramEvictions + counters.nvmEvictions =
      (start engine).sumOver evicted calls ∧
    (counters.ramEvictions = (start engine).sumOver evicted calls ↔
      ∀ before call, before ++ [call] <+: calls →
        ((start engine).run before).dropped call = []) := by
  intro counters
  have hevictions : counters.ramEvictions + counters.nvmEvictions =
      (start engine).sumOver evicted calls := evictions_run hcreate calls
  refine ⟨hevictions, ?_⟩
  have hdropped : counters.nvmEvictions = 0 ↔
      ∀ before call, before ++ [call] <+: calls →
        ((start engine).run before).dropped call = [] := by
    rw [nvmEvictions_run hcreate, sumOver_eq_zero_iff]
    simp only [List.length_eq_zero_iff]
  rw [← hdropped, ← hevictions]
  omega

theorem ram_evictions_of_twoKeys :
    Engine.create 8 smallHierarchy = .ok smallEngine ∧
      let counters := ((start smallEngine).run twoKeys).engine.counters
      counters.ramEvictions + counters.nvmEvictions =
        (start smallEngine).sumOver evicted twoKeys ∧
      (counters.ramEvictions = (start smallEngine).sumOver evicted twoKeys ↔
        ∀ before call, before ++ [call] <+: twoKeys →
          ((start smallEngine).run before).dropped call = []) :=
  ⟨create_smallEngine, ram_evictions_leave_out_drops create_smallEngine twoKeys⟩

/-! ### A second key where there is room for one -/

def noRoomHierarchy : Hierarchy :=
  { smallHierarchy with fast := ⟨"fast", 0⟩, large := ⟨"large", 0⟩ }

def oneByteEngine : Engine :=
  { ramBytes := 1, reserved := 0, hierarchy := noRoomHierarchy, pools := #[]
    counters := {} }

def secondKey : List EngineCall :=
  [.addPool "p" 1, .allocate 0 [] 1, .write 0 [120] 0, .install 0,
    .allocate 0 [97] 0, .install 0]

theorem put_secondKey :
    let first := (LinkedCache.empty 1 : LinkedCache Bytes Bytes).put [] [120] 1
    first.1 = [] ∧ (first.2.put [97] [] 1).1 = [([], [120])] := by
  intro first
  have hempty : (LinkedCache.empty 1 : LinkedCache Bytes Bytes).Keeps
      (.empty 1) := LinkedCache.keeps_empty 1
  obtain ⟨hfirst, hkeeps⟩ := hempty.put [] [120] 1
  exact ⟨hfirst, (hkeeps.put [97] [] 1).1⟩

theorem counters_secondKey :
    ((start oneByteEngine).run secondKey).engine.counters =
      { nvmEvictions := 1 } := by
  obtain ⟨hfirst, hsecond⟩ := put_secondKey
  simp [run, secondKey, start, perform, oneByteEngine, noRoomHierarchy,
    smallHierarchy, Hierarchy.logicalCapacity, Engine.addPool, Engine.maxPools,
    Engine.available, Engine.nvmShare, Engine.allocate, Engine.poolAt,
    Engine.admits, Engine.maxKeySize, Engine.maxItemSize, mib, kib, Pool.empty,
    WriteHandle.write, Engine.install, Engine.takePool, Engine.setPool,
    Pool.store, Pool.raise, NvmTier.take, NvmTier.empty, NvmTier.receive,
    NvmTier.receiveOne, NvmTier.bytesWith, entrySize, hfirst, hsecond,
    Counters.countDepartures, Counters.countDeparture]

/-- RAM evicts the first key, which the other tier has no room for, and no
eviction from RAM is counted. -/
theorem ram_evictions_of_secondKey :
    Engine.create 1 noRoomHierarchy = .ok oneByteEngine ∧
      let counters := ((start oneByteEngine).run secondKey).engine.counters
      (start oneByteEngine).sumOver evicted secondKey = 1 ∧
        counters.ramEvictions = 0 ∧ counters.nvmEvictions = 1 := by
  have hcreate : Engine.create 1 noRoomHierarchy = .ok oneByteEngine := rfl
  have hevictions := evictions_run hcreate secondKey
  rw [counters_secondKey] at hevictions ⊢
  exact ⟨hcreate, hevictions.symm, rfl, rfl⟩

end Session

end TieredCache
