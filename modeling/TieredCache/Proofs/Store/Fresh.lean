import Mathlib
import TieredCache.Proofs.Store.Stock

/-!
# A fresh store

A store that was just set up is empty, and all of its pools have the same room.
It has as many shards as its settings ask for, and no workers yet.
-/

namespace TieredCache

namespace Engine

variable {engine next : Engine}

theorem room?_addPool {name : String} {bytes number : Nat}
    (h : engine.addPool name bytes = .ok (number, next)) :
    next.room? engine.pools.size = some (bytes, engine.nvmShare bytes) := by
  obtain ⟨-, hpushed, -⟩ := addPool_eq h
  simp [room?, hpushed, Pool.empty, NvmTier.empty]

end Engine

namespace Store

variable {engine next : Engine} {store : Store} {settings : Settings}
  {workload : Workload}

theorem room?_addPools {bytes first count : Nat}
    (h : addPools bytes first count engine = .ok next)
    (hkeeps : engine.Keeps fun _ => [])
    (hrooms : ∀ id, id < engine.pools.size →
      ∃ below, engine.room? id = some (bytes, below)) :
    ∀ id, id < next.pools.size →
      ∃ below, next.room? id = some (bytes, below) := by
  induction count generalizing first engine with
  | zero =>
      cases h
      exact hrooms
  | succ count ih =>
      unfold addPools at h
      split at h
      · cases h
      · rename_i number grown hadd
        obtain ⟨hgrown, hkept, hsize, -⟩ := hkeeps.addPool hadd
        apply ih h hgrown
        intro id hid
        by_cases hlast : id = engine.pools.size
        · rw [hlast]
          exact ⟨_, Engine.room?_addPool hadd⟩
        · obtain ⟨below, hroom⟩ := hrooms id (by omega)
          exact ⟨below, hkept id _ hroom⟩

theorem room?_createEngine {ramBytes shardCount : Nat} {hierarchy : Hierarchy}
    (h : createEngine ramBytes shardCount hierarchy = .ok engine) :
    ∀ id, id < engine.pools.size →
      ∃ below, engine.room? id = some (ramBytes / shardCount, below) := by
  unfold createEngine at h
  split at h
  · cases h
  · rename_i fresh hcreate
    have hfresh := Engine.keeps_create hcreate
    have hnone : fresh.pools.size = 0 := by
      rw [Engine.create_eq hcreate]
      rfl
    simp only at h
    split at h
    · cases h
    · split at h
      · cases h
      · rename_i grown hadd
        cases h
        apply room?_addPools hadd hfresh
        intro id hid
        omega

theorem unbound_create {shardCount workerLimit : Nat} {routing : Routing}
    (h : Routing.create shardCount workerLimit = .ok routing) :
    (∀ worker : Nat, routing.bindings[worker]? = none) ∧
      routing.shardCount = shardCount ∧
      routing.workerLimit = workerLimit := by
  unfold Routing.create at h
  split at h
  · cases h
    simp
  · cases h

theorem space_create {settings : ScanSettings} {scanner : Scanner}
    (h : Scanner.create settings = .ok scanner) :
    scanner.space = ⟨Bytes.ofString settings.stem, settings.width.toNat⟩ ∧
      scanner.lookupLimit = settings.lookupLimit.toNat := by
  unfold Scanner.create at h
  simp only at h
  split at h
  · cases h
    exact ⟨rfl, rfl⟩
  · cases h

theorem ramBytes_eq {bytes : Nat} (h : ramBytes settings = .ok bytes) :
    bytes = mib * settings.cacheSizeMb.toNat := by
  unfold ramBytes at h
  simp only at h
  split at h
  · cases h
    rfl
  · cases h

def poolBytes (settings : Settings) : Nat :=
  mib * settings.cacheSizeMb.toNat / settings.poolCount.toNat

/-- An empty store as its settings ask for it. -/
structure Fresh (store : Store) (settings : Settings) : Prop where
  keeps : store.engine.Keeps fun _ => []
  counters : store.engine.counters = {}
  pools : store.engine.pools.size = store.routing.shardCount
  shards : store.routing.shardCount = settings.poolCount.toNat
  rooms : ∀ shard, shard < store.routing.shardCount →
    ∃ below, store.engine.room? shard = some (poolBytes settings, below)
  unbound : ∀ worker : Nat, store.routing.bindings[worker]? = none
  workers : store.routing.workerLimit = settings.maxWorkers.toNat
  space : store.scanner.space =
    ⟨Bytes.ofString settings.scan.stem, settings.scan.width.toNat⟩
  lookups : store.scanner.lookupLimit = settings.scan.lookupLimit.toNat
  fields : store.fieldCount = settings.fieldCount.toNat
  readRouting : store.readRouting = settings.readRouting

theorem fresh_create (h : create settings = .ok store) :
    store.Fresh settings := by
  unfold create at h
  split at h
  · cases h
  · split at h
    · cases h
    · split at h
      · cases h
      · split at h
        · cases h
        · split at h
          · cases h
          · rename_i engine hengine
            cases h
            obtain ⟨hunbound, hshards, hworkers⟩ := unbound_create ‹_›
            obtain ⟨hspace, hlookups⟩ := space_create ‹_›
            obtain ⟨hkeeps, hsize, hcounters⟩ := createEngine_spec hengine
            have hram := ramBytes_eq (‹_› : ramBytes settings = .ok _)
            have hrooms := room?_createEngine hengine
            rw [hsize, hshards, hram] at hrooms
            refine ⟨hkeeps, hcounters, hsize, hshards, ?_, hunbound, hworkers, hspace,
              hlookups, rfl, rfl⟩
            rw [hshards]
            exact hrooms

theorem Fresh.lawful (h : store.Fresh settings) : store.routing.Lawful := by
  intro worker shard hshard
  simp [h.unbound worker] at hshard

theorem Fresh.shardOfWorker_register (h : store.Fresh settings) {worker : Nat}
    (hworker : worker < settings.maxWorkers.toNat) :
    (store.register worker).2.routing.shardOfWorker worker =
      .ok (worker % settings.poolCount.toNat) := by
  have hshard := Nat.mod_lt worker store.routing.shardCount_pos
  rw [← h.workers] at hworker
  rw [← h.shards]
  simp [register, Routing.register, Routing.shardOfWorker, Nat.not_le.2 hshard,
    Nat.not_le.2 hworker, h.unbound worker]

/-- A fresh store suits every workload with its fields and its keys. -/
theorem Fresh.holds (h : store.Fresh settings)
    (hfields : workload.fieldCount = settings.fieldCount)
    (hkeys : workload.keys =
      ⟨Bytes.ofString settings.scan.stem, settings.scan.width.toNat⟩) :
    store.Holds workload (poolBytes settings) fun _ => False := by
  refine ⟨⟨_, h.keeps, ?_, fun _ _ => False.elim⟩, ?_, ?_, h.pools, h.rooms,
    h.lawful⟩
  · intro shard key row hrow
    simp [Ledger.value?] at hrow
  · rw [h.fields, hfields]
  · rw [h.space, hkeys]

end Store

end TieredCache
