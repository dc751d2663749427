import TieredCache.Row.Selection
import TieredCache.Settings.Hierarchy
import TieredCache.Store.Scan

/-!
# The record store

A store keeps records under keys, each key in the pool of its shard.  Writes and
removals go to the shard of the key; reads go there too, or to the shard that
the reading worker is bound to, in which case records in other shards are not
found.  Every operation returns the next store, also when it fails.
-/

namespace TieredCache

/-- The pool of a shard has the number of the shard. -/
structure Store where
  engine : Engine
  routing : Routing
  scanner : Scanner
  fieldCount : Nat
  readRouting : ReadRouting

namespace Store

def cacheName : String := "tierbench"

/-! ## Setting up -/

def addPools (bytes first : Nat) : Nat → Engine → Except EngineError Engine
  | 0, engine => .ok engine
  | count + 1, engine =>
      match engine.addPool s!"pool{first}" bytes with
      | .error e => .error e
      | .ok (_, engine) => addPools bytes (first + 1) count engine

def ramBytes (settings : Settings) : Except SettingsError Nat :=
  let bytes := mib * settings.cacheSizeMb.toNat
  if 0 < bytes ∧ bytes < byteLimit then .ok bytes
  else .error (.invalid Key.cacheSize .notPositive)

def createEngine (ramBytes shardCount : Nat) (hierarchy : Hierarchy) :
    Except StoreError Engine :=
  match Engine.create ramBytes hierarchy with
  | .error e => .error (.engine e)
  | .ok engine =>
      let poolBytes := ramBytes / shardCount
      if poolBytes = 0 then
        .error (.settings (.invalid Key.poolCount .morePoolsThanBytes))
      else
        match addPools poolBytes 0 shardCount engine with
        | .error e => .error (.engine e)
        | .ok engine => .ok engine

/-- An empty store; the first check that fails is reported. -/
def create (settings : Settings) : Except StoreError Store :=
  match settings.tier.hierarchy with
  | .error e => .error (.settings e)
  | .ok hierarchy =>
      match Routing.create settings.poolCount.toNat settings.maxWorkers.toNat with
      | .error e => .error (.settings e)
      | .ok routing =>
          match Scanner.create settings.scan with
          | .error e => .error (.settings e)
          | .ok scanner =>
              match ramBytes settings with
              | .error e => .error (.settings e)
              | .ok ramBytes =>
                  match createEngine ramBytes routing.shardCount hierarchy with
                  | .error e => .error e
                  | .ok engine => .ok
                      { engine, routing, scanner
                        fieldCount := settings.fieldCount.toNat
                        readRouting := settings.readRouting }

/-! ## One key -/

/-- The fields of a row that a reader asks for, or all of them, of which there
have to be as many as the store's records have. -/
def present (fieldCount : Nat) (row : Bytes) :
    Option (List Bytes) → Except RowError Record
  | some names => Row.decodeSelected row names
  | none =>
      match Row.decode row with
      | .error e => .error e
      | .ok record =>
          if record.length = fieldCount then .ok record
          else .error (.incomplete fieldCount record.length)

def findIn (store : Store) (shard : Nat) (key : Bytes)
    (names : Option (List Bytes)) : Except StoreError (Option Record) × Store :=
  let (found, engine) := store.engine.find shard key
  let store := { store with engine }
  match found with
  | .error e => (.error (.engine e), store)
  | .ok none => (.ok none, store)
  | .ok (some row) =>
      match present store.fieldCount row names with
      | .error e => (.error (.row e), store)
      | .ok record => (.ok (some record), store)

def readShard (store : Store) (worker : Nat) :
    Except StoreError (Bytes → Nat) :=
  match store.readRouting with
  | .key => .ok store.routing.shardOfKey
  | .affinity =>
      match store.routing.shardOfWorker worker with
      | .error e => .error (.routing e)
      | .ok shard => .ok fun _ => shard

def read (store : Store) (worker : Nat) (key : Bytes)
    (names : Option (List Bytes)) : Except StoreError (Option Record) × Store :=
  match store.readShard worker with
  | .error e => (.error e, store)
  | .ok shardOf => store.findIn (shardOf key) key names

def write (store : Store) (key : Bytes) (record : Record) :
    Except StoreError Unit × Store :=
  let shard := store.routing.shardOfKey key
  match Row.encode record with
  | .error e => (.error (.row e), store)
  | .ok row =>
      match store.engine.allocate shard key row.length with
      | .error e => (.error (.engine e), store)
      | .ok none => (.error (.allocationFailed shard row.length), store)
      | .ok (some handle) =>
          let (installed, engine) := store.engine.install (handle.write row)
          (installed.mapError .engine, { store with engine })

def delete (store : Store) (key : Bytes) : Except StoreError Bool × Store :=
  let (removed, engine) :=
    store.engine.remove (store.routing.shardOfKey key) key
  (removed.mapError .engine, { store with engine })

/-! ## Ranges and workers -/

/-- At most `count` records in use, in the order of their numbers, from a start
key on. -/
def scan (store : Store) (worker : Nat) (start : Bytes) (count : Nat)
    (names : Option (List Bytes)) : Except Halt (List Record) × Store :=
  match store.readShard worker with
  | .error e => (.error (.reported e), store)
  | .ok shardOf =>
      store.scanner.scan
        (fun store key => findIn store (shardOf key) key names)
        Memory.listSize start count store

/-- Binds a worker to the shard of its number modulo the number of shards, and
returns the shard that it is bound to. -/
def register (store : Store) (worker : Nat) : Except StoreError Nat × Store :=
  match store.routing.register worker (worker % store.routing.shardCount) with
  | .error e => (.error (.routing e), store)
  | .ok (shard, routing) => (.ok shard, { store with routing })

/-! ## Observations -/

def sample (store : Store) : Sample := store.engine.counters.snapshot.sample

def poolOf? (store : Store) (shard : Nat) : Option Nat :=
  if shard < store.routing.shardCount then some shard else none

end Store

end TieredCache
