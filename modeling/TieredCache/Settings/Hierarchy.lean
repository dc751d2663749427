import TieredCache.Hierarchy
import TieredCache.Settings.Basic

/-!
# The hierarchy that settings ask for

The mode comes first, then both devices, then what all modes share, then what
only the chosen mode reads.  Parameters of other modes are not looked at.
-/

namespace TieredCache.TierSettings

def hotThreshold : Nat := 4

def coolingThreshold : Nat := 200

def hotRegionSize : Nat := 100000 * mib

def pageSize : Nat := 2048 * kib

/-- The path of a device, which no other instance uses. -/
def instancePath (device : String) (instanceNumber : UInt32) : String :=
  s!"{device}_{instanceNumber.toNat}"

def device (key name : String) (capacityGb : UInt64) (instanceNumber : UInt32) :
    Except SettingsError Device :=
  let capacity := gib * capacityGb.toNat
  if (Text.trim name.toList).isEmpty then .error (.invalid key .blankDevice)
  else if capacity = 0 then .error (.invalid key .zeroCapacity)
  else if byteLimit ≤ capacity then .error (.invalid key .hugeCapacity)
  else .ok { path := instancePath name instanceNumber, capacity }

def megabytes (key : String) (count : UInt64) : Except SettingsError Nat :=
  let bytes := mib * count.toNat
  if bytes = 0 then .error (.invalid key .notPositive)
  else if byteLimit ≤ bytes then .error (.invalid key .hugeByteCount)
  else .ok bytes

def migration (settings : TierSettings) (tuningStep : Option Nat) :
    Except SettingsError Migration := do
  let rate ← megabytes Key.migrationRate settings.migrationRateMb
  return {
    rate, hotThreshold, coolingThreshold, hotRegionSize
    offloadRatioMin := 0
    offloadRatioMax := 100
    pageSize, tuningStep }

def layout (settings : TierSettings) : TierMode → Except SettingsError Layout
  | .striping => return .striping
  | .tiering => return .tiering (← settings.migration none)
  | .mostAggressive => do
      let step ← megabytes Key.regionStep settings.regionStepMb
      return .tiering (← settings.migration (some step))
  | .caching =>
      match WriteMode.ofName? settings.writeMode with
      | some writeMode => return .caching writeMode pageSize
      | none =>
          throw (.invalid Key.writeMode (.unknownWriteMode settings.writeMode))

/-- The hierarchy of the settings; the first check that fails is reported. -/
def hierarchy (settings : TierSettings) : Except SettingsError Hierarchy := do
  let some mode := TierMode.ofName? settings.mode
    | throw (.unknownMode settings.mode)
  let fast ← device Key.fastDevice settings.fastDevice settings.fastCapacityGb
    settings.instanceNumber
  let large ← device Key.largeDevice settings.largeDevice
    settings.largeCapacityGb settings.instanceNumber
  if settings.readerThreads = 0 then
    throw (.invalid Key.readerThreads .notPositive)
  if settings.writerThreads = 0 then
    throw (.invalid Key.writerThreads .notPositive)
  if 100 < settings.smallItemsPercent then
    throw (.invalid Key.smallItemsPercent
      (.notPercentage settings.smallItemsPercent.toNat))
  let layout ← settings.layout mode
  return {
    layout, fast, large
    readerThreads := settings.readerThreads.toNat
    writerThreads := settings.writerThreads.toNat
    smallItems :=
      if settings.smallItemsPercent = 0 then none
      else some { sizePercent := settings.smallItemsPercent.toNat } }

end TieredCache.TierSettings
