import TieredCache.Settings.Properties

/-!
# Settings of a store

Every setting has a key and a default.  Reading them from properties refuses
values of the wrong kind; whether a value makes sense is left to its use.
-/

namespace TieredCache

/-! ## Keys -/

namespace Key

def cacheSize : String := "cachelib.cache_size"
def mode : String := "cachelib.mode"
def fastDevice : String := "cachelib.perf_device"
def fastCapacity : String := "cachelib.perf_cap_gb"
def largeDevice : String := "cachelib.cap_device"
def largeCapacity : String := "cachelib.cap_cap_gb"
def writeMode : String := "cachelib.caching_write_mode"
def smallItemsPercent : String := "cachelib.bighash_size_pct"
def readerThreads : String := "cachelib.reader_thread"
def writerThreads : String := "cachelib.writer_thread"
def migrationRate : String := "cachelib.migrate_rate_mb"
def regionStep : String := "cachelib.region_step_mb"
def instanceNumber : String := "cachelib.instance"
def poolCount : String := "cachelib.pool_count"
def maxWorkers : String := "cachelib.max_workers"
def readRouting : String := "cachelib.read_routing"
def keyStem : String := "cachelib.scan_key_prefix"
def keyWidth : String := "cachelib.scan_key_width"
def lookupLimit : String := "cachelib.scan_lookup_limit"
def fieldCount : String := "fieldcount"

def all : List String :=
  [cacheSize, mode, fastDevice, fastCapacity, largeDevice, largeCapacity,
   writeMode, smallItemsPercent, readerThreads, writerThreads, migrationRate,
   regionStep, instanceNumber, poolCount, maxWorkers, readRouting, keyStem,
   keyWidth, lookupLimit, fieldCount]

end Key

/-! ## Values -/

/-- How a read chooses its shard: by the worker that reads, or by the key. -/
inductive ReadRouting where
  | affinity
  | key
  deriving DecidableEq, Repr

def ReadRouting.name : ReadRouting → String
  | .affinity => "affinity"
  | .key => "key"

instance : Readable ReadRouting where
  read
    | "affinity" => .ok .affinity
    | "key" => .ok .key
    | text => .error (.choice "affinity or key" text)

structure TierSettings where
  mode : String := "striping"
  fastDevice : String := "optane0"
  fastCapacityGb : UInt64 := 100
  largeDevice : String := "nvme0"
  largeCapacityGb : UInt64 := 150
  writeMode : String := "wb"
  smallItemsPercent : UInt32 := 50
  readerThreads : UInt32 := 128
  writerThreads : UInt32 := 64
  migrationRateMb : UInt64 := 100
  regionStepMb : UInt64 := 1024
  instanceNumber : UInt32 := 0
  deriving DecidableEq, Repr

structure ScanSettings where
  stem : String := "user"
  width : UInt64 := 12
  lookupLimit : UInt64 := 100
  deriving DecidableEq, Repr

structure Settings where
  cacheSizeMb : UInt64 := 1024
  tier : TierSettings := {}
  poolCount : UInt64 := 8
  maxWorkers : UInt64 := 1024
  readRouting : ReadRouting := .affinity
  scan : ScanSettings := {}
  fieldCount : UInt64 := 10
  deriving DecidableEq, Repr

/-! ## Reading -/

def TierSettings.ofProperties (properties : Properties) :
    Except SettingsError TierSettings := do
  let default : TierSettings := {}
  let fastCapacityGb ← properties.readD Key.fastCapacity default.fastCapacityGb
  let largeCapacityGb ←
    properties.readD Key.largeCapacity default.largeCapacityGb
  let smallItemsPercent ←
    properties.readD Key.smallItemsPercent default.smallItemsPercent
  let readerThreads ← properties.readD Key.readerThreads default.readerThreads
  let writerThreads ← properties.readD Key.writerThreads default.writerThreads
  let migrationRateMb ←
    properties.readD Key.migrationRate default.migrationRateMb
  let regionStepMb ← properties.readD Key.regionStep default.regionStepMb
  let instanceNumber ←
    properties.readD Key.instanceNumber default.instanceNumber
  return {
    mode := properties.getD Key.mode default.mode
    fastDevice := properties.getD Key.fastDevice default.fastDevice
    fastCapacityGb
    largeDevice := properties.getD Key.largeDevice default.largeDevice
    largeCapacityGb
    writeMode := properties.getD Key.writeMode default.writeMode
    smallItemsPercent, readerThreads, writerThreads, migrationRateMb
    regionStepMb, instanceNumber }

/-- Every setting from its own key; the first bad value in this order is
reported. -/
def Settings.ofProperties (properties : Properties) :
    Except SettingsError Settings := do
  let default : Settings := {}
  let cacheSizeMb ← properties.readD Key.cacheSize default.cacheSizeMb
  let tier ← TierSettings.ofProperties properties
  let poolCount ← properties.readD Key.poolCount default.poolCount
  let maxWorkers ← properties.readD Key.maxWorkers default.maxWorkers
  let readRouting ← properties.readD Key.readRouting default.readRouting
  let width ← properties.readD Key.keyWidth default.scan.width
  let lookupLimit ← properties.readD Key.lookupLimit default.scan.lookupLimit
  let fieldCount ← properties.readD Key.fieldCount default.fieldCount
  return {
    cacheSizeMb, tier, poolCount, maxWorkers, readRouting
    scan := {
      stem := properties.getD Key.keyStem default.scan.stem
      width, lookupLimit }
    fieldCount }

end TieredCache
