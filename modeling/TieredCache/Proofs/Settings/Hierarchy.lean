import Mathlib
import TieredCache.Proofs.Errors
import TieredCache.Settings.Hierarchy

/-!
# Settings that make a hierarchy

What the chosen mode does not use is not looked at.  All other settings have
limits; within them the hierarchy repeats the settings, with byte counts that
are exact and that a word holds.
-/

namespace TieredCache

def Hierarchy.tuningStep? (hierarchy : Hierarchy) : Option Nat :=
  match hierarchy.layout with
  | .tiering migration => migration.tuningStep
  | _ => none

namespace TierSettings

variable {settings other : TierSettings} {hierarchy : Hierarchy}
  {key name : String} {capacityGb count : UInt64} {instanceNumber : UInt32}

def FitsGib (count : UInt64) : Prop :=
  1 ≤ count.toNat ∧ count.toNat < 2 ^ 34

instance (count : UInt64) : Decidable (FitsGib count) :=
  inferInstanceAs (Decidable (_ ∧ _))

def FitsMib (count : UInt64) : Prop :=
  1 ≤ count.toNat ∧ count.toNat < 2 ^ 44

instance (count : UInt64) : Decidable (FitsMib count) :=
  inferInstanceAs (Decidable (_ ∧ _))

theorem mib_eq : mib = 2 ^ 20 := by decide

theorem gib_eq : gib = 2 ^ 30 := by decide

theorem device_eq_ok_iff {result : Device} :
    device key name capacityGb instanceNumber = .ok result ↔
      (Text.trim name.toList ≠ [] ∧ FitsGib capacityGb) ∧
      result = ⟨instancePath name instanceNumber, gib * capacityGb.toNat⟩ := by
  have hzero : gib * capacityGb.toNat = 0 ↔ capacityGb.toNat = 0 := by
    simp only [gib, mib, kib]
    omega
  have hhuge : byteLimit ≤ gib * capacityGb.toNat ↔
      2 ^ 34 ≤ capacityGb.toNat := by
    simp only [gib, mib, kib, byteLimit, UInt64.size]
    omega
  simp only [device, List.isEmpty_iff, hzero, hhuge, FitsGib]
  split_ifs with hblank hnone hmany
  · simp [hblank]
  · simp [hnone]
  · simp only [false_iff]
    omega
  · simp only [Except.ok.injEq]
    constructor
    · rintro rfl
      exact ⟨⟨hblank, by omega, by omega⟩, rfl⟩
    · rintro ⟨-, rfl⟩
      rfl

theorem megabytes_eq_ok_iff {bytes : Nat} :
    megabytes key count = .ok bytes ↔
      FitsMib count ∧ bytes = mib * count.toNat := by
  have hzero : mib * count.toNat = 0 ↔ count.toNat = 0 := by
    simp only [mib, kib]
    omega
  have hhuge : byteLimit ≤ mib * count.toNat ↔ 2 ^ 44 ≤ count.toNat := by
    simp only [mib, kib, byteLimit, UInt64.size]
    omega
  simp only [megabytes, hzero, hhuge, FitsMib]
  split_ifs with hnone hmany
  · simp [hnone]
  · simp only [false_iff]
    omega
  · simp only [Except.ok.injEq]
    omega

theorem hierarchy_eq_ok_iff :
    settings.hierarchy = .ok hierarchy ↔
      ∃ mode fast large layout, TierMode.ofName? settings.mode = some mode ∧
        device Key.fastDevice settings.fastDevice settings.fastCapacityGb
          settings.instanceNumber = .ok fast ∧
        device Key.largeDevice settings.largeDevice settings.largeCapacityGb
          settings.instanceNumber = .ok large ∧
        settings.readerThreads ≠ 0 ∧ settings.writerThreads ≠ 0 ∧
        settings.smallItemsPercent ≤ 100 ∧
        settings.layout mode = .ok layout ∧
        hierarchy = {
          layout, fast, large
          readerThreads := settings.readerThreads.toNat
          writerThreads := settings.writerThreads.toNat
          smallItems :=
            if settings.smallItemsPercent = 0 then none
            else some
              { sizePercent := settings.smallItemsPercent.toNat } } := by
  unfold TierSettings.hierarchy
  cases TierMode.ofName? settings.mode with
  | none => simp
  | some mode =>
      simp only [bind_eq_ok_iff, guard_eq_ok_iff, Option.some.injEq,
        UInt32.not_lt]
      constructor
      · rintro ⟨fast, hfast, large, hlarge, hreaders, hwriters, hpercent,
          layout, hlayout, ⟨⟩⟩
        exact ⟨mode, fast, large, layout, rfl, hfast, hlarge, hreaders,
          hwriters, hpercent, hlayout, rfl⟩
      · rintro ⟨_, fast, large, layout, rfl, hfast, hlarge, hreaders, hwriters,
          hpercent, hlayout, rfl⟩
        exact ⟨fast, hfast, large, hlarge, hreaders, hwriters, hpercent,
          layout, hlayout, rfl⟩

variable {mode : TierMode}

def migrationWith (settings : TierSettings) (tuningStep : Option Nat) :
    Migration where
  rate := mib * settings.migrationRateMb.toNat
  hotThreshold := hotThreshold
  coolingThreshold := coolingThreshold
  hotRegionSize := hotRegionSize
  offloadRatioMin := 0
  offloadRatioMax := 100
  pageSize := pageSize
  tuningStep := tuningStep

theorem migration_eq_ok_iff {step : Option Nat} {result : Migration} :
    settings.migration step = .ok result ↔
      FitsMib settings.migrationRateMb ∧
      result = settings.migrationWith step := by
  simp only [migration, bind_eq_ok_iff, megabytes_eq_ok_iff]
  constructor
  · rintro ⟨rate, ⟨hrate, rfl⟩, ⟨⟩⟩
    exact ⟨hrate, rfl⟩
  · rintro ⟨hrate, rfl⟩
    exact ⟨_, ⟨hrate, rfl⟩, rfl⟩

theorem exists_writeMode_iff {text : String} :
    (∃ mode, WriteMode.ofName? text = some mode) ↔
      text ∈ ["wb", "write-back", "wt", "write-through"] := by
  unfold WriteMode.ofName?
  split <;> simp_all

theorem layout_eq_ok_iff {result : Layout} :
    settings.layout mode = .ok result ↔
      match mode with
      | .striping => result = .striping
      | .tiering =>
          FitsMib settings.migrationRateMb ∧
          result = .tiering (settings.migrationWith none)
      | .mostAggressive =>
          FitsMib settings.regionStepMb ∧
          FitsMib settings.migrationRateMb ∧
          result = .tiering (settings.migrationWith
            (some (mib * settings.regionStepMb.toNat)))
      | .caching =>
          ∃ writeMode, WriteMode.ofName? settings.writeMode = some writeMode ∧
            result = .caching writeMode pageSize := by
  cases mode with
  | striping => simp only [layout, pure_eq_ok_iff]
  | tiering =>
      simp only [layout, bind_eq_ok_iff, migration_eq_ok_iff, pure_eq_ok_iff,
        and_assoc, exists_and_left, exists_eq_left]
  | mostAggressive =>
      simp only [layout, bind_eq_ok_iff, migration_eq_ok_iff,
        megabytes_eq_ok_iff, pure_eq_ok_iff, and_assoc, exists_and_left,
        exists_eq_left]
  | caching =>
      simp only [layout]
      cases WriteMode.ofName? settings.writeMode with
      | none => simp
      | some writeMode => simp [pure_eq_ok_iff]

theorem exists_layout_iff (h : settings.mode = mode.name) :
    (∃ layout, settings.layout mode = .ok layout) ↔
      (settings.mode = "tiering" ∨ settings.mode = "most" →
        FitsMib settings.migrationRateMb) ∧
      (settings.mode = "most" → FitsMib settings.regionStepMb) ∧
      (settings.mode = "caching" →
        settings.writeMode ∈ ["wb", "write-back", "wt", "write-through"]) := by
  simp only [layout_eq_ok_iff, ← exists_writeMode_iff]
  cases mode with
  | striping => simp [h, TierMode.name]
  | tiering => simp [h, TierMode.name]
  | mostAggressive => simp [h, TierMode.name, and_comm]
  | caching => simp [h, TierMode.name]

/-- The limits of settings.  Each mode has limits of its own for what only it
uses. -/
structure Valid (settings : TierSettings) : Prop where
  mode : settings.mode ∈ ["striping", "tiering", "most", "caching"]
  fastDevice : Text.trim settings.fastDevice.toList ≠ []
  largeDevice : Text.trim settings.largeDevice.toList ≠ []
  fastCapacity : FitsGib settings.fastCapacityGb
  largeCapacity : FitsGib settings.largeCapacityGb
  readerThreads : settings.readerThreads ≠ 0
  writerThreads : settings.writerThreads ≠ 0
  smallItemsPercent : settings.smallItemsPercent ≤ 100
  migrationRate : settings.mode = "tiering" ∨ settings.mode = "most" →
    FitsMib settings.migrationRateMb
  regionStep : settings.mode = "most" →
    FitsMib settings.regionStepMb
  writeMode : settings.mode = "caching" →
    settings.writeMode ∈ ["wb", "write-back", "wt", "write-through"]

theorem exists_mode_iff {text : String} :
    (∃ mode : TierMode, text = mode.name) ↔
      text ∈ ["striping", "tiering", "most", "caching"] := by
  constructor
  · rintro ⟨mode, rfl⟩
    cases mode <;> decide
  · simp only [List.mem_cons, List.not_mem_nil, or_false]
    rintro (rfl | rfl | rfl | rfl)
    · exact ⟨.striping, rfl⟩
    · exact ⟨.tiering, rfl⟩
    · exact ⟨.mostAggressive, rfl⟩
    · exact ⟨.caching, rfl⟩

theorem exists_hierarchy_iff :
    (∃ hierarchy, settings.hierarchy = .ok hierarchy) ↔ settings.Valid := by
  simp only [hierarchy_eq_ok_iff, TierMode.ofName?_eq_some_iff,
    device_eq_ok_iff]
  constructor
  · rintro ⟨-, mode, fast, large, layout, hmode, ⟨⟨hfast, hfastCapacity⟩, -⟩,
      ⟨⟨hlarge, hlargeCapacity⟩, -⟩, hreaders, hwriters, hpercent, hlayout, -⟩
    obtain ⟨hrate, hstep, hwrite⟩ := (exists_layout_iff hmode).1 ⟨_, hlayout⟩
    exact ⟨exists_mode_iff.1 ⟨mode, hmode⟩, hfast, hlarge, hfastCapacity,
      hlargeCapacity, hreaders, hwriters, hpercent, hrate, hstep, hwrite⟩
  · intro h
    obtain ⟨mode, hmode⟩ := exists_mode_iff.2 h.mode
    obtain ⟨layout, hlayout⟩ := (exists_layout_iff hmode).2
      ⟨h.migrationRate, h.regionStep, h.writeMode⟩
    exact ⟨_, mode, _, _, layout, hmode, ⟨⟨h.fastDevice, h.fastCapacity⟩, rfl⟩,
      ⟨⟨h.largeDevice, h.largeCapacity⟩, rfl⟩, h.readerThreads, h.writerThreads,
      h.smallItemsPercent, hlayout, rfl⟩

/-- A hierarchy repeats the settings: byte counts are exact and below the limit
of a word, and what a mode does not use is not there. -/
structure Repeats (settings : TierSettings) (hierarchy : Hierarchy) : Prop where
  mode : hierarchy.mode.name = settings.mode
  fastCapacity :
    hierarchy.fast.capacity = 2 ^ 30 * settings.fastCapacityGb.toNat
  largeCapacity :
    hierarchy.large.capacity = 2 ^ 30 * settings.largeCapacityGb.toNat
  migrationRate : hierarchy.migrationRate? =
    if settings.mode = "tiering" ∨ settings.mode = "most" then
      some (2 ^ 20 * settings.migrationRateMb.toNat)
    else none
  tuningStep : hierarchy.tuningStep? =
    if settings.mode = "most" then
      some (2 ^ 20 * settings.regionStepMb.toNat)
    else none
  smallItems : hierarchy.smallItems.map SmallItems.sizePercent =
    if 0 < settings.smallItemsPercent then
      some settings.smallItemsPercent.toNat
    else none
  logicalCapacity : hierarchy.logicalCapacity =
    if settings.mode = "caching" then hierarchy.large.capacity
    else min (hierarchy.fast.capacity + hierarchy.large.capacity) (2 ^ 64 - 1)
  writeMode : settings.mode = "caching" → ∃ writeMode,
    WriteMode.ofName? settings.writeMode = some writeMode ∧
      hierarchy.layout = .caching writeMode pageSize
  threads : hierarchy.readerThreads = settings.readerThreads.toNat ∧
    hierarchy.writerThreads = settings.writerThreads.toNat
  paths : hierarchy.paths =
    [instancePath settings.largeDevice settings.instanceNumber,
     instancePath settings.fastDevice settings.instanceNumber]
  fits : ∀ bytes, bytes = hierarchy.fast.capacity ∨
    bytes = hierarchy.large.capacity ∨
    some bytes = hierarchy.migrationRate? ∨
    some bytes = hierarchy.tuningStep? → bytes < 2 ^ 64

theorem repeats_layout (hmode : settings.mode = mode.name)
    (hlayout : settings.layout mode = .ok hierarchy.layout) :
    hierarchy.mode = mode ∧
    hierarchy.migrationRate? =
      (if settings.mode = "tiering" ∨ settings.mode = "most" then
        some (mib * settings.migrationRateMb.toNat)
      else none) ∧
    hierarchy.tuningStep? =
      (if settings.mode = "most" then
        some (mib * settings.regionStepMb.toNat)
      else none) ∧
    hierarchy.logicalCapacity =
      (if settings.mode = "caching" then hierarchy.large.capacity
      else min (hierarchy.fast.capacity + hierarchy.large.capacity)
        (byteLimit - 1)) ∧
    (settings.mode = "caching" → ∃ writeMode,
      WriteMode.ofName? settings.writeMode = some writeMode ∧
        hierarchy.layout = .caching writeMode pageSize) := by
  unfold Hierarchy.mode Hierarchy.migrationRate? Hierarchy.tuningStep?
    Hierarchy.logicalCapacity
  rw [layout_eq_ok_iff] at hlayout
  cases mode with
  | striping => simp [hlayout, hmode, TierMode.name]
  | tiering =>
      obtain ⟨-, hlayout⟩ := hlayout
      simp [hlayout, hmode, TierMode.name, migrationWith]
  | mostAggressive =>
      obtain ⟨-, -, hlayout⟩ := hlayout
      simp [hlayout, hmode, TierMode.name, migrationWith]
  | caching =>
      obtain ⟨writeMode, hwrite, hlayout⟩ := hlayout
      simp [hlayout, hwrite, hmode, TierMode.name]

theorem repeats_of_hierarchy (h : settings.hierarchy = .ok hierarchy) :
    settings.Repeats hierarchy := by
  have hvalid := exists_hierarchy_iff.1 ⟨_, h⟩
  obtain ⟨mode, fast, large, layout, hmode, hfast, hlarge, -, -, -, hlayout,
    hresult⟩ := hierarchy_eq_ok_iff.1 h
  rw [TierMode.ofName?_eq_some_iff] at hmode
  obtain ⟨-, rfl⟩ := device_eq_ok_iff.1 hfast
  obtain ⟨-, rfl⟩ := device_eq_ok_iff.1 hlarge
  have hsame : settings.layout mode = .ok hierarchy.layout := by
    rw [hlayout, hresult]
  obtain ⟨hname, hrate, hstep, hcapacity, hwrite⟩ := repeats_layout hmode hsame
  have hfastBytes :
      hierarchy.fast.capacity = 2 ^ 30 * settings.fastCapacityGb.toNat := by
    rw [hresult, ← gib_eq]
  have hlargeBytes :
      hierarchy.large.capacity = 2 ^ 30 * settings.largeCapacityGb.toNat := by
    rw [hresult, ← gib_eq]
  rw [mib_eq] at hrate hstep
  exact {
    mode := by rw [hname, hmode]
    fastCapacity := hfastBytes
    largeCapacity := hlargeBytes
    migrationRate := hrate
    tuningStep := hstep
    smallItems := by
      rw [hresult]
      by_cases hnone : settings.smallItemsPercent = 0
      · simp [hnone]
      · simp [hnone, UInt32.pos_iff_ne_zero.2 hnone]
    logicalCapacity := hcapacity
    writeMode := hwrite
    threads := by simp [hresult]
    paths := by simp [hresult, Hierarchy.paths]
    fits := by
      obtain ⟨-, hfast⟩ := hvalid.fastCapacity
      obtain ⟨-, hlarge⟩ := hvalid.largeCapacity
      rw [hrate, hstep, hfastBytes, hlargeBytes]
      rintro bytes (rfl | rfl | hbytes | hbytes)
      · omega
      · omega
      · split at hbytes
        · obtain ⟨-, hfits⟩ := hvalid.migrationRate ‹_›
          cases hbytes
          omega
        · cases hbytes
      · split at hbytes
        · obtain ⟨-, hfits⟩ := hvalid.regionStep ‹_›
          cases hbytes
          omega
        · cases hbytes }

/-- The settings agree in all that their mode uses. -/
structure SameUsed (settings other : TierSettings) : Prop where
  mode : settings.mode = other.mode
  fastDevice : settings.fastDevice = other.fastDevice
  fastCapacity : settings.fastCapacityGb = other.fastCapacityGb
  largeDevice : settings.largeDevice = other.largeDevice
  largeCapacity : settings.largeCapacityGb = other.largeCapacityGb
  smallItemsPercent : settings.smallItemsPercent = other.smallItemsPercent
  readerThreads : settings.readerThreads = other.readerThreads
  writerThreads : settings.writerThreads = other.writerThreads
  instanceNumber : settings.instanceNumber = other.instanceNumber
  writeMode : settings.mode = "caching" → settings.writeMode = other.writeMode
  migrationRate : settings.mode = "tiering" ∨ settings.mode = "most" →
    settings.migrationRateMb = other.migrationRateMb
  regionStep : settings.mode = "most" →
    settings.regionStepMb = other.regionStepMb

theorem SameUsed.layout_eq (h : SameUsed settings other)
    (hmode : settings.mode = mode.name) :
    settings.layout mode = other.layout mode := by
  cases mode with
  | striping => rfl
  | tiering =>
      simp only [TierSettings.layout, migration, h.migrationRate (.inl hmode)]
  | mostAggressive =>
      simp only [TierSettings.layout, migration, h.migrationRate (.inr hmode),
        h.regionStep hmode]
  | caching => simp only [TierSettings.layout, h.writeMode hmode]

theorem SameUsed.hierarchy_eq (h : SameUsed settings other) :
    settings.hierarchy = other.hierarchy := by
  unfold TierSettings.hierarchy
  rw [← h.mode, ← h.fastDevice, ← h.fastCapacity, ← h.largeDevice,
    ← h.largeCapacity, ← h.smallItemsPercent, ← h.readerThreads,
    ← h.writerThreads, ← h.instanceNumber]
  cases hmode : TierMode.ofName? settings.mode with
  | none => rfl
  | some mode =>
      simp only [h.layout_eq (TierMode.ofName?_eq_some_iff.1 hmode)]

/-- Settings make a hierarchy exactly within their limits, and it repeats them.
Settings that differ in nothing that their mode uses make the same hierarchy or
have the same error. -/
theorem valid_settings_make_hierarchies :
    (∀ settings : TierSettings,
      ((∃ hierarchy, settings.hierarchy = .ok hierarchy) ↔ settings.Valid) ∧
      ∀ hierarchy, settings.hierarchy = .ok hierarchy →
        settings.Repeats hierarchy) ∧
    ∀ settings other : TierSettings, settings.SameUsed other →
      settings.hierarchy = other.hierarchy :=
  ⟨fun _ => ⟨exists_hierarchy_iff, fun _ => repeats_of_hierarchy⟩,
    fun _ _ h => h.hierarchy_eq⟩

/-- The step is used in one mode only, and a word does not hold the bytes of
every capacity. -/
theorem valid_settings_make_hierarchies_step :
    (∃ hierarchy, TierSettings.hierarchy { mode := "most" } = .ok hierarchy ∧
      hierarchy.tuningStep? = some (2 ^ 20 * 1024)) ∧
    (¬∃ hierarchy, TierSettings.hierarchy { fastCapacityGb := 2 ^ 34 } =
      .ok hierarchy) ∧
    TierSettings.hierarchy { regionStepMb := 0, writeMode := "?" } =
      TierSettings.hierarchy {} := by
  obtain ⟨hvalid, hsame⟩ := valid_settings_make_hierarchies
  refine ⟨?_, ?_, ?_⟩
  · have hlimits : Valid { mode := "most" } := by
      constructor <;> decide
    obtain ⟨hierarchy, hok⟩ := (hvalid _).1.2 hlimits
    exact ⟨hierarchy, hok, ((hvalid _).2 _ hok).tuningStep⟩
  · rw [(hvalid _).1]
    intro h
    exact absurd h.fastCapacity.2 (by decide)
  · apply hsame
    constructor <;> first | rfl | decide

end TierSettings

end TieredCache
