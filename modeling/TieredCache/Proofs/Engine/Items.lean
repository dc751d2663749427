import Mathlib
import TieredCache.Engine.Basic
import TieredCache.Proofs.Engine.Ledger

/-!
# Operations on the items of an engine

An operation is for one pool.  It answers from the ledger of that pool and leads
to the next one, apart from the keys that it drops; the ledgers of all other
pools stay as they are.
-/

namespace TieredCache

inductive ItemCall where
  | install (handle : WriteHandle)
  | find (id : Nat) (key : Bytes)
  | remove (id : Nat) (key : Bytes)
  deriving DecidableEq, Repr

namespace ItemCall

def pool : ItemCall → Nat
  | .install handle => handle.pool
  | .find id _ => id
  | .remove id _ => id

/-- What an operation makes of the ledger of its pool, drops apart. -/
def enter (ledger : Ledger Bytes) : ItemCall → Ledger Bytes
  | .install handle => ledger.set handle.key handle.memory
  | .find _ _ => ledger
  | .remove _ key => ledger.erase key

end ItemCall

namespace Pool

def perform (pool : Pool) : ItemCall → Pool
  | .install handle => (pool.store handle.key handle.memory).2
  | .find _ key => (pool.find key).2.2
  | .remove _ key => (pool.remove key).2

def departures (pool : Pool) : ItemCall → List Departure
  | .install handle => (pool.store handle.key handle.memory).1
  | .find _ key => (pool.find key).2.1
  | .remove _ _ => []

def Allows (pool : Pool) : ItemCall → Prop
  | .install handle => entrySize handle.key handle.memory ≤ pool.ramBytes
  | .find _ _ => True
  | .remove _ _ => True

theorem Keeps.perform {pool : Pool} {ledger : Ledger Bytes}
    (h : pool.Keeps ledger) {call : ItemCall} (hallows : pool.Allows call) :
    pool.Reaches (pool.perform call) (call.enter ledger)
      (droppedKeys (pool.departures call)) := by
  cases call with
  | install handle => exact (h.store hallows).1
  | find id key => exact (h.find key).2.1
  | remove id key => exact (h.remove key).2

/-- A lookup ends in RAM, or below it, or nowhere, and only one that ends below
RAM makes entries depart. -/
theorem find_cases (pool : Pool) (key : Bytes) :
    (∃ value ram, pool.ram.get key = (some value, ram) ∧
      pool.find key = (.inRam value, [], { pool with ram })) ∨
    (∃ ram, pool.ram.get key = (none, ram) ∧
      pool.nvm.items[key]? = none ∧
      pool.find key = (.missing, [], { pool with ram })) ∨
    ∃ value ram, pool.ram.get key = (none, ram) ∧
      pool.nvm.items[key]? = some value ∧
      pool.find key =
        (.inNvm value,
          { pool with ram, nvm := (pool.nvm.take key).2 }.raise key value) := by
  rcases hget : pool.ram.get key with ⟨found, ram⟩
  cases found with
  | some value => exact .inl ⟨value, ram, rfl, by simp only [find, hget]⟩
  | none =>
      right
      cases hitem : pool.nvm.items[key]? with
      | none =>
          have htake : pool.nvm.take key = (none, pool.nvm) := by
            simp only [NvmTier.take, hitem]
          exact .inl ⟨ram, rfl, rfl, by simp only [find, hget, htake]⟩
      | some value =>
          have htake : (pool.nvm.take key).1 = some value := by
            simp only [NvmTier.take, hitem]
          refine .inr ⟨value, ram, rfl, rfl, ?_⟩
          rcases hfetch : pool.nvm.take key with ⟨item, nvm⟩
          rw [hfetch] at htake
          cases htake
          simp only [find, hget, hfetch]

end Pool

namespace Counters

def countCall (counters : Counters) (pool : Pool) : ItemCall → Counters
  | .install handle =>
      counters.countDepartures (pool.departures (.install handle))
  | .find id key =>
      counters.countFind (pool.find key).1 (pool.departures (.find id key))
  | .remove _ _ => counters

theorem evictions_countCall (counters : Counters) (pool : Pool)
    (call : ItemCall) :
    (counters.countCall pool call).ramEvictions =
        counters.ramEvictions + (demotedSizes (pool.departures call)).length ∧
      (counters.countCall pool call).nvmEvictions =
        counters.nvmEvictions + (droppedKeys (pool.departures call)).length := by
  cases call with
  | install handle =>
      simp only [countCall, countDepartures_eq]
      exact ⟨trivial, trivial⟩
  | find id key =>
      rcases pool.find_cases key with ⟨value, ram, -, hfind⟩ |
        ⟨ram, -, -, hfind⟩ | ⟨value, ram, -, -, hfind⟩
      · simp only [countCall, Pool.departures, hfind]
        exact ⟨rfl, rfl⟩
      · simp only [countCall, Pool.departures, hfind]
        exact ⟨rfl, rfl⟩
      · simp only [countCall, hfind, countFind, countDepartures_eq]
        exact ⟨rfl, rfl⟩
  | remove id key => exact ⟨rfl, rfl⟩

end Counters

namespace Engine

variable {engine : Engine} {ledgers : Nat → Ledger Bytes} {id : Nat}
  {pool : Pool} {key value : Bytes}

def perform (engine : Engine) : ItemCall → Engine
  | .install handle => (engine.install handle).2
  | .find id key => (engine.find id key).2
  | .remove id key => (engine.remove id key).2

def dropped (engine : Engine) (call : ItemCall) : List Bytes :=
  match engine.pools[call.pool]? with
  | some pool => droppedKeys (pool.departures call)
  | none => []

def revise (engine : Engine) (call : ItemCall)
    (ledgers : Nat → Ledger Bytes) : Nat → Ledger Bytes :=
  Function.update ledgers call.pool
    ((call.enter (ledgers call.pool)).eraseAll (engine.dropped call))

def inRam? (engine : Engine) (id : Nat) (key : Bytes) : Option Bytes :=
  match engine.pools[id]? with
  | some pool => pool.inRam? key
  | none => none

def room? (engine : Engine) (id : Nat) : Option (Nat × Nat) :=
  engine.pools[id]?.map fun pool => (pool.ramBytes, pool.nvm.capacity)

def Admits (engine : Engine) (handle : WriteHandle) : Prop :=
  ∃ pool, engine.pools[handle.pool]? = some pool ∧
    pool.Allows (.install handle)

/-- What an operation asks for: a buffer has to be one that is admitted. -/
def Permits (engine : Engine) : ItemCall → Prop
  | .install handle => engine.Admits handle
  | .find _ _ => True
  | .remove _ _ => True

/-- Pools keep their ledgers; those of pools yet to come are blank. -/
structure Keeps (engine : Engine) (ledgers : Nat → Ledger Bytes) : Prop where
  pools : ∀ id (pool : Pool), engine.pools[id]? = some pool →
    pool.Keeps (ledgers id)
  blank : ∀ id, engine.pools.size ≤ id → ledgers id = []

/-! ## One operation -/

theorem getElem?_setPool (hpool : engine.pools[id]? = some pool) (next : Pool)
    (counters : Counters) (other : Nat) :
    (engine.setPool id next counters).pools[other]? =
      if other = id then some next else engine.pools[other]? := by
  obtain ⟨hid, -⟩ := Array.getElem?_eq_some_iff.1 hpool
  unfold setPool
  rw [Array.getElem?_setIfInBounds]
  by_cases heq : id = other
  · subst heq
    simp [hid]
  · simp [heq, Ne.symm heq]

theorem install_eq {handle : WriteHandle}
    (hpool : engine.pools[handle.pool]? = some pool) :
    engine.install handle =
      (.ok (), engine.setPool handle.pool (pool.perform (.install handle))
        (engine.counters.countDepartures
          (pool.departures (.install handle)))) := by
  obtain ⟨hid, rfl⟩ := Array.getElem?_eq_some_iff.1 hpool
  unfold install
  rw [dif_pos hid]
  simp only [setPool_takePool]
  rfl

theorem find_eq (hpool : engine.pools[id]? = some pool) (key : Bytes) :
    engine.find id key =
      (.ok (pool.find key).1.value?,
        engine.setPool id (pool.perform (.find id key))
          (engine.counters.countFind (pool.find key).1
            (pool.departures (.find id key)))) := by
  obtain ⟨hid, rfl⟩ := Array.getElem?_eq_some_iff.1 hpool
  unfold find
  rw [dif_pos hid]
  simp only [setPool_takePool]
  rfl

theorem remove_eq (hpool : engine.pools[id]? = some pool) (key : Bytes) :
    engine.remove id key =
      (.ok (pool.remove key).1,
        engine.setPool id (pool.perform (.remove id key))
          engine.counters) := by
  obtain ⟨hid, rfl⟩ := Array.getElem?_eq_some_iff.1 hpool
  unfold remove
  rw [dif_pos hid]
  simp only [setPool_takePool]
  rfl

theorem perform_eq {call : ItemCall}
    (hpool : engine.pools[call.pool]? = some pool) :
    engine.perform call =
      engine.setPool call.pool (pool.perform call)
        (engine.counters.countCall pool call) := by
  cases call with
  | install handle => exact congrArg Prod.snd (install_eq hpool)
  | find id key => exact congrArg Prod.snd (find_eq hpool key)
  | remove id key => exact congrArg Prod.snd (remove_eq hpool key)

theorem perform_of_absent {call : ItemCall}
    (hpool : engine.pools[call.pool]? = none) :
    engine.perform call = engine := by
  have hid : ¬call.pool < engine.pools.size := by
    have := Array.getElem?_eq_none_iff.1 hpool
    omega
  cases call with
  | install handle => simp [perform, install, show ¬handle.pool < _ from hid]
  | find id key => simp [perform, find, show ¬id < _ from hid]
  | remove id key => simp [perform, remove, show ¬id < _ from hid]

theorem dropped_remove (engine : Engine) (id : Nat) (key : Bytes) :
    engine.dropped (.remove id key) = [] := by
  unfold dropped
  cases engine.pools[(ItemCall.remove id key).pool]? <;> rfl

theorem size_pools_perform (engine : Engine) (call : ItemCall) :
    (engine.perform call).pools.size = engine.pools.size := by
  cases hpool : engine.pools[call.pool]? with
  | none => rw [perform_of_absent hpool]
  | some pool =>
      rw [perform_eq hpool]
      simp [setPool]

theorem nvmEvictions_perform (engine : Engine) (call : ItemCall) :
    (engine.perform call).counters.nvmEvictions =
      engine.counters.nvmEvictions + (engine.dropped call).length := by
  cases hpool : engine.pools[call.pool]? with
  | none =>
      rw [perform_of_absent hpool]
      simp [dropped, hpool]
  | some pool =>
      rw [perform_eq hpool]
      simp only [dropped, hpool]
      exact (engine.counters.evictions_countCall pool call).2

theorem admits_iff {handle : WriteHandle} : engine.Admits handle ↔
    ∃ room, engine.room? handle.pool = some room ∧
      entrySize handle.key handle.memory ≤ room.1 := by
  unfold Admits room? Pool.Allows
  cases engine.pools[handle.pool]? <;> simp

theorem room?_eq_none_iff :
    engine.room? id = none ↔ engine.pools.size ≤ id := by
  simp [room?]

theorem Permits.allows {call : ItemCall} (h : engine.Permits call)
    (hpool : engine.pools[call.pool]? = some pool) : pool.Allows call := by
  cases call with
  | install handle =>
      obtain ⟨other, hother, hallows⟩ := h
      rw [ItemCall.pool, hother] at hpool
      cases hpool
      exact hallows
  | find id key => trivial
  | remove id key => trivial

theorem Keeps.reaches (h : engine.Keeps ledgers) {call : ItemCall}
    (hpermits : engine.Permits call)
    (hpool : engine.pools[call.pool]? = some pool) :
    pool.Reaches (pool.perform call) (call.enter (ledgers call.pool))
      (engine.dropped call) := by
  unfold dropped
  rw [hpool]
  exact (h.pools call.pool pool hpool).perform (hpermits.allows hpool)

theorem Keeps.room?_perform (h : engine.Keeps ledgers) {call : ItemCall}
    (hpermits : engine.Permits call) (id : Nat) :
    (engine.perform call).room? id = engine.room? id := by
  cases hpool : engine.pools[call.pool]? with
  | none => rw [perform_of_absent hpool]
  | some pool =>
      have hreaches := h.reaches hpermits hpool
      rw [perform_eq hpool]
      unfold room?
      rw [getElem?_setPool hpool]
      by_cases heq : id = call.pool
      · rw [if_pos heq, heq, hpool]
        simp [hreaches.ramBytes, hreaches.nvmCapacity]
      · rw [if_neg heq]

theorem Keeps.revise_of_absent (h : engine.Keeps ledgers) {call : ItemCall}
    (hpermits : engine.Permits call)
    (hpool : engine.pools[call.pool]? = none) :
    engine.revise call ledgers = ledgers := by
  have hblank : ledgers call.pool = [] :=
    h.blank call.pool (Array.getElem?_eq_none_iff.1 hpool)
  have hentered : call.enter (ledgers call.pool) = [] := by
    rw [hblank]
    cases call with
    | install handle =>
        obtain ⟨pool, hother, -⟩ := hpermits
        rw [ItemCall.pool, hother] at hpool
        contradiction
    | find id key => rfl
    | remove id key => rfl
  unfold revise
  rw [hentered, Ledger.eraseAll, List.filter_nil, ← hblank]
  exact Function.update_eq_self _ _

theorem Keeps.perform (h : engine.Keeps ledgers) {call : ItemCall}
    (hpermits : engine.Permits call) :
    (engine.perform call).Keeps (engine.revise call ledgers) := by
  cases hpool : engine.pools[call.pool]? with
  | none =>
      rw [perform_of_absent hpool, h.revise_of_absent hpermits hpool]
      exact h
  | some pool =>
      have hreaches := h.reaches hpermits hpool
      obtain ⟨hlt, -⟩ := Array.getElem?_eq_some_iff.1 hpool
      rw [perform_eq hpool]
      constructor
      · intro id other hother
        rw [getElem?_setPool hpool] at hother
        by_cases heq : id = call.pool
        · rw [if_pos heq, Option.some.injEq] at hother
          rw [heq, revise, Function.update_self, ← hother]
          exact hreaches.keeps
        · rw [if_neg heq] at hother
          rw [revise, Function.update_of_ne heq]
          exact h.pools id other hother
      · intro id hid
        have hsize : engine.pools.size ≤ id := by simpa [setPool] using hid
        have hne : id ≠ call.pool := by omega
        rw [revise, Function.update_of_ne hne]
        exact h.blank id hsize

theorem Keeps.find (h : engine.Keeps ledgers) (hid : id < engine.pools.size)
    (key : Bytes) :
    (engine.find id key).1 = .ok ((ledgers id).value? key) ∧
      (engine.find id key).2.inRam? id key = (ledgers id).value? key := by
  have hpool := Array.getElem?_eq_getElem hid
  obtain ⟨hvalue, -, hram⟩ := (h.pools id _ hpool).find key
  rw [find_eq hpool]
  constructor
  · rw [hvalue]
  · unfold inRam?
    rw [getElem?_setPool hpool, if_pos rfl]
    exact hram

theorem Keeps.remove (h : engine.Keeps ledgers) (hid : id < engine.pools.size)
    (key : Bytes) :
    (engine.remove id key).1 = .ok ((ledgers id).value? key).isSome := by
  have hpool := Array.getElem?_eq_getElem hid
  rw [remove_eq hpool, ((h.pools id _ hpool).remove key).1]

theorem Keeps.install (h : engine.Keeps ledgers) {handle : WriteHandle}
    (hadmits : engine.Admits handle) :
    (engine.install handle).1 = .ok () ∧
      (engine.install handle).2.inRam? handle.pool handle.key =
        some handle.memory := by
  obtain ⟨pool, hpool, hallows⟩ := hadmits
  obtain ⟨-, hram⟩ := (h.pools handle.pool pool hpool).store hallows
  rw [install_eq hpool]
  constructor
  · rfl
  · unfold inRam?
    rw [getElem?_setPool hpool, if_pos rfl]
    exact hram

theorem Keeps.value?_of_inRam? (h : engine.Keeps ledgers)
    (hram : engine.inRam? id key = some value) :
    (ledgers id).value? key = some value := by
  unfold inRam? at hram
  cases hpool : engine.pools[id]? with
  | none => simp [hpool] at hram
  | some pool =>
      rw [hpool] at hram
      exact (h.pools id pool hpool).value?_of_inRam? hram

theorem Keeps.inRam?_eq_none (h : engine.Keeps ledgers) {room : Nat × Nat}
    (hroom : engine.room? id = some room) {other stored : Bytes}
    (hram : engine.inRam? id key = some value) (hne : other ≠ key)
    (hstored : (ledgers id).value? other = some stored)
    (hfull : room.1 < entrySize key value + entrySize other stored) :
    engine.inRam? id other = none := by
  obtain ⟨pool, hpool, rfl⟩ := Option.map_eq_some_iff.1 hroom
  have hkeeps := h.pools id pool hpool
  unfold inRam? at hram ⊢
  rw [hpool] at hram ⊢
  cases hother : pool.inRam? other with
  | none => exact hother
  | some found =>
      have hfound := hkeeps.value?_of_inRam? hother
      rw [hstored] at hfound
      cases hfound
      have hsizes := hkeeps.sizes_le_of_inRam? hne hram hother
      exact absurd hsizes (Nat.not_le.2 hfull)

theorem notMem_dropped {call : ItemCall}
    (h : (engine.perform call).Keeps (engine.revise call ledgers))
    (hram : (engine.perform call).inRam? call.pool key = some value) :
    key ∉ engine.dropped call := by
  have hvalue := h.value?_of_inRam? hram
  rw [revise, Function.update_self, Ledger.value?_eraseAll] at hvalue
  intro hmem
  rw [if_pos hmem] at hvalue
  contradiction

theorem Keeps.mem_of_dropped (h : engine.Keeps ledgers) {call : ItemCall}
    (hpermits : engine.Permits call) (hkey : key ∈ engine.dropped call) :
    key ∈ (call.enter (ledgers call.pool)).keys := by
  cases hpool : engine.pools[call.pool]? with
  | none => simp [dropped, hpool] at hkey
  | some pool => exact (h.reaches hpermits hpool).listed key hkey

theorem Keeps.dropped_eq_nil (h : engine.Keeps ledgers) {call : ItemCall}
    (hpermits : engine.Permits call)
    (hroom : ∀ room, engine.room? call.pool = some room →
      (call.enter (ledgers call.pool)).size ≤ max room.1 room.2) :
    engine.dropped call = [] := by
  cases hpool : engine.pools[call.pool]? with
  | none => simp [dropped, hpool]
  | some pool =>
      refine (h.reaches hpermits hpool).roomy
        (hroom (pool.ramBytes, pool.nvm.capacity) ?_)
      rw [room?, hpool]
      rfl

theorem Keeps.admits_perform (h : engine.Keeps ledgers) {call : ItemCall}
    (hpermits : engine.Permits call) {handle : WriteHandle}
    (hadmits : engine.Admits handle) :
    (engine.perform call).Admits handle := by
  rw [admits_iff] at hadmits ⊢
  rw [h.room?_perform hpermits]
  exact hadmits

/-! ## Handles and pools -/

theorem admits_of_allocate {size : Nat} {handle : WriteHandle}
    (h : engine.allocate id key size = .ok (some handle)) :
    engine.Admits handle ∧ handle.pool = id ∧ handle.key = key ∧
      handle.memory.length = size := by
  unfold allocate poolAt at h
  cases hpool : engine.pools[id]? with
  | none => simp [hpool] at h
  | some pool =>
      simp only [hpool] at h
      split at h
      · rename_i hadmits
        simp only [admits, Bool.and_eq_true, decide_eq_true_eq] at hadmits
        cases h
        refine ⟨⟨pool, hpool, ?_⟩, rfl, rfl, List.length_replicate⟩
        simpa [Pool.Allows, entrySize] using hadmits.2
      · cases h

theorem allocate_eq {room : Nat × Nat} (h : engine.room? id = some room)
    (key : Bytes) (size : Nat) :
    engine.allocate id key size =
      .ok (if key.length ≤ maxKeySize ∧ size ≤ maxItemSize ∧
          key.length + size ≤ room.1 then
        some ⟨id, key, List.replicate size 0⟩ else none) := by
  obtain ⟨pool, hpool, rfl⟩ := Option.map_eq_some_iff.1 h
  unfold allocate poolAt
  simp only [hpool, admits, Bool.and_eq_true, decide_eq_true_eq, and_assoc]
  split <;> rfl

@[simp] theorem length_memory_write (handle : WriteHandle) (data : Bytes)
    (offset : Nat) :
    (handle.write data offset).memory.length = handle.memory.length := by
  simp [WriteHandle.write]
  omega

theorem admits_write {handle : WriteHandle} {data : Bytes} {offset : Nat} :
    engine.Admits (handle.write data offset) ↔ engine.Admits handle := by
  have hsize : entrySize (handle.write data offset).key
      (handle.write data offset).memory =
        entrySize handle.key handle.memory := by
    simp [entrySize]
    rfl
  rw [admits_iff, admits_iff, hsize]
  rfl

theorem create_eq {ramBytes : Nat} {hierarchy : Hierarchy}
    (h : create ramBytes hierarchy = .ok engine) :
    engine =
      { ramBytes, reserved := 0, hierarchy, pools := #[], counters := {} } := by
  unfold create at h
  split at h
  · cases h
  · cases h
    rfl

theorem keeps_create {ramBytes : Nat} {hierarchy : Hierarchy}
    (h : create ramBytes hierarchy = .ok engine) :
    engine.Keeps fun _ => [] := by
  rw [create_eq h]
  constructor
  · intro id pool hpool
    simp at hpool
  · intro id hid
    rfl

theorem addPool_eq {name : String} {bytes number : Nat} {next : Engine}
    (h : engine.addPool name bytes = .ok (number, next)) :
    number = engine.pools.size ∧
      next.pools =
        engine.pools.push (Pool.empty bytes (engine.nvmShare bytes)) ∧
      next.counters = engine.counters := by
  unfold Engine.addPool at h
  split at h
  · cases h
  · split at h
    · cases h
    · cases h
      exact ⟨rfl, rfl, rfl⟩

theorem Keeps.addPool (h : engine.Keeps ledgers) {name : String} {bytes : Nat}
    {number : Nat} {next : Engine}
    (hadd : engine.addPool name bytes = .ok (number, next)) :
    next.Keeps ledgers ∧
      (∀ id room, engine.room? id = some room → next.room? id = some room) ∧
      next.pools.size = engine.pools.size + 1 ∧
      next.counters = engine.counters := by
  obtain ⟨-, hpushed, hcounters⟩ := addPool_eq hadd
  have hsize : next.pools.size = engine.pools.size + 1 := by
    rw [hpushed, Array.size_push]
  refine ⟨⟨?_, ?_⟩, ?_, hsize, hcounters⟩
  · intro id pool hpool
    rw [hpushed, Array.getElem?_push] at hpool
    split at hpool
    · rename_i heq
      rw [Option.some.injEq] at hpool
      rw [← hpool, h.blank id (by omega)]
      exact Pool.keeps_empty _ _
    · exact h.pools id pool hpool
  · intro id hid
    exact h.blank id (by omega)
  · intro id room hroom
    unfold room? at hroom ⊢
    obtain ⟨pool, hpool, heq⟩ := Option.map_eq_some_iff.1 hroom
    obtain ⟨hlt, -⟩ := Array.getElem?_eq_some_iff.1 hpool
    rw [hpushed, Array.getElem?_push, if_neg (by omega), hpool]
    exact congrArg some heq

end Engine

end TieredCache
