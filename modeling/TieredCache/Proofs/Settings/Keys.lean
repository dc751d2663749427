import Mathlib
import TieredCache.Proofs.Errors
import TieredCache.Proofs.Settings.Properties
import TieredCache.Proofs.Settings.Spelling

/-!
# Settings and their keys

A record of settings is a list of them, each with its key and its place in the
record.  Reading takes every setting from its own key alone, and stops at the
first in the order of the list whose key has a text that writes no value.
-/

namespace TieredCache

/-! ## One setting -/

structure Setting (ρ : Type) where
  key : String
  {α : Type}
  [spelling : Spelling α]
  value : ρ → α

namespace Setting

variable {ρ σ : Type} {setting : Setting ρ} {initial : ρ}
  {properties : Properties} {e : SettingsError}

instance (setting : Setting ρ) : Spelling setting.α := setting.spelling

/-- A setting of a part of the record. -/
def within (part : σ → ρ) (setting : Setting ρ) : Setting σ :=
  { setting with value := setting.value ∘ part }

def text (setting : Setting ρ) (record : ρ) : String :=
  Spelling.text (setting.value record)

/-- The properties ask for a value of the setting: that of the initial record if
they have no text for its key, or else the one that the text writes. -/
def Asks (setting : Setting ρ) (initial : ρ) (properties : Properties)
    (value : setting.α) : Prop :=
  match properties.get? setting.key with
  | none => value = setting.value initial
  | some text => Spelling.Writes text value

def Rejects (setting : Setting ρ) (properties : Properties) : Prop :=
  ∃ text, properties.get? setting.key = some text ∧
    Spelling.WritesNone setting.α text

def read (setting : Setting ρ) (initial : ρ) (properties : Properties) :
    Except SettingsError setting.α :=
  properties.readD setting.key (setting.value initial)

theorem read_congr {others : Properties}
    (h : properties.get? setting.key = others.get? setting.key) :
    setting.read initial properties = setting.read initial others := by
  unfold read Properties.readD
  rw [h]

theorem read_eq_ok_iff {value : setting.α} :
    setting.read initial properties = .ok value ↔
      setting.Asks initial properties value := by
  unfold read Asks Properties.readD
  cases properties.get? setting.key with
  | none => simp [eq_comm]
  | some text =>
      simp only
      rw [← Spelling.read_eq_ok_iff]
      split <;> simp [*]

theorem read_eq_error_iff :
    setting.read initial properties = .error e ↔
      ∃ text cause, properties.get? setting.key = some text ∧
        Spelling.WritesNone setting.α text ∧
        (Readable.read text : Except ValueError setting.α) = .error cause ∧
        e = .invalid setting.key (.unreadable text cause) := by
  unfold read Properties.readD
  cases properties.get? setting.key with
  | none => simp
  | some text =>
      simp only [Option.some.injEq, exists_and_left, exists_eq_left',
        Spelling.writesNone_iff, ← Spelling.read_eq_ok_iff]
      split <;> simp [*, eq_comm]

def fault? (setting : Setting ρ) (initial : ρ) (properties : Properties) :
    Option SettingsError :=
  error? (setting.read initial properties)

theorem fault?_eq_some_iff :
    setting.fault? initial properties = some e ↔
      ∃ text cause, properties.get? setting.key = some text ∧
        Spelling.WritesNone setting.α text ∧
        (Readable.read text : Except ValueError setting.α) = .error cause ∧
        e = .invalid setting.key (.unreadable text cause) := by
  rw [fault?, error?_eq_some_iff, read_eq_error_iff]

theorem fault?_eq_none_iff :
    setting.fault? initial properties = none ↔ ¬setting.Rejects properties := by
  constructor
  · rintro hnone ⟨text, htext, hwrites⟩
    obtain ⟨value, hvalue⟩ := error?_eq_none_iff.1 hnone
    rw [read_eq_ok_iff, Asks, htext] at hvalue
    exact Spelling.writesNone_iff.1 hwrites value hvalue
  · intro hrejects
    rw [Option.eq_none_iff_forall_ne_some]
    intro e hfault
    obtain ⟨text, -, htext, hwrites, -⟩ := fault?_eq_some_iff.1 hfault
    exact hrejects ⟨text, htext, hwrites⟩

theorem read_name (key : String) (value : ρ → String) :
    read ⟨key, value⟩ initial properties =
      .ok (properties.getD key (value initial)) := by
  unfold read Properties.readD Properties.getD
  cases properties.get? key <;> rfl

theorem fault?_name (key : String) (value : ρ → String) :
    fault? ⟨key, value⟩ initial properties = none := by
  rw [fault?, read_name]
  rfl

end Setting

/-! ## All settings -/

def TierSettings.all : List (Setting TierSettings) :=
  [⟨Key.mode, mode⟩, ⟨Key.fastDevice, fastDevice⟩,
   ⟨Key.fastCapacity, fastCapacityGb⟩, ⟨Key.largeDevice, largeDevice⟩,
   ⟨Key.largeCapacity, largeCapacityGb⟩, ⟨Key.writeMode, writeMode⟩,
   ⟨Key.smallItemsPercent, smallItemsPercent⟩,
   ⟨Key.readerThreads, readerThreads⟩, ⟨Key.writerThreads, writerThreads⟩,
   ⟨Key.migrationRate, migrationRateMb⟩, ⟨Key.regionStep, regionStepMb⟩,
   ⟨Key.instanceNumber, instanceNumber⟩]

def Settings.all : List (Setting Settings) :=
  ⟨Key.cacheSize, cacheSizeMb⟩ :: TierSettings.all.map (.within tier) ++
    [⟨Key.poolCount, poolCount⟩, ⟨Key.maxWorkers, maxWorkers⟩,
     ⟨Key.readRouting, readRouting⟩, ⟨Key.keyStem, (·.scan.stem)⟩,
     ⟨Key.keyWidth, (·.scan.width)⟩, ⟨Key.lookupLimit, (·.scan.lookupLimit)⟩,
     ⟨Key.fieldCount, fieldCount⟩]

section Reading

variable {properties : Properties}

theorem TierSettings.error?_ofProperties :
    error? (ofProperties properties) =
      all.findSome? fun setting => setting.fault? {} properties := by
  simp only [all, findSome?_cons_eq_or, Setting.fault?_name, Option.none_or]
  -- The names are read without an error, all else in the order of the list.
  repeat refine error?_bind fun _ => ?_
  rfl

theorem TierSettings.read_of_ofProperties {settings : TierSettings}
    (h : ofProperties properties = .ok settings) :
    ∀ setting ∈ all,
      setting.read {} properties = .ok (setting.value settings) := by
  unfold ofProperties at h
  obtain ⟨fastCapacityGb, hfast, h⟩ := exists_of_bind h
  obtain ⟨largeCapacityGb, hlarge, h⟩ := exists_of_bind h
  obtain ⟨smallItemsPercent, hsmall, h⟩ := exists_of_bind h
  obtain ⟨readerThreads, hreaders, h⟩ := exists_of_bind h
  obtain ⟨writerThreads, hwriters, h⟩ := exists_of_bind h
  obtain ⟨migrationRateMb, hrate, h⟩ := exists_of_bind h
  obtain ⟨regionStepMb, hstep, h⟩ := exists_of_bind h
  obtain ⟨instanceNumber, hinstance, h⟩ := exists_of_bind h
  cases h
  simp only [all, List.forall_mem_cons, Setting.read_name, true_and]
  exact ⟨hfast, hlarge, hsmall, hreaders, hwriters, hrate, hstep, hinstance,
    by simp⟩

theorem TierSettings.eq_of_all {settings other : TierSettings}
    (h : ∀ setting ∈ all, setting.value settings = setting.value other) :
    settings = other := by
  cases settings
  cases other
  simpa [all] using h

theorem Settings.error?_ofProperties :
    error? (ofProperties properties) =
      all.findSome? fun setting => setting.fault? {} properties := by
  have htier : error? (TierSettings.ofProperties properties) =
      (TierSettings.all.map (Setting.within tier)).findSome? fun setting =>
        setting.fault? {} properties := by
    rw [TierSettings.error?_ofProperties, List.findSome?_map]
    rfl
  simp only [all, List.cons_append, List.findSome?_append, ← htier,
    findSome?_cons_eq_or, Setting.fault?_name, Option.none_or]
  repeat refine error?_bind fun _ => ?_
  rfl

theorem Settings.read_of_ofProperties {settings : Settings}
    (h : ofProperties properties = .ok settings) :
    ∀ setting ∈ all,
      setting.read {} properties = .ok (setting.value settings) := by
  unfold ofProperties at h
  obtain ⟨cacheSizeMb, hsize, h⟩ := exists_of_bind h
  obtain ⟨tier, htier, h⟩ := exists_of_bind h
  obtain ⟨poolCount, hpools, h⟩ := exists_of_bind h
  obtain ⟨maxWorkers, hworkers, h⟩ := exists_of_bind h
  obtain ⟨readRouting, hrouting, h⟩ := exists_of_bind h
  obtain ⟨width, hwidth, h⟩ := exists_of_bind h
  obtain ⟨lookupLimit, hlimit, h⟩ := exists_of_bind h
  obtain ⟨fieldCount, hfields, h⟩ := exists_of_bind h
  cases h
  simp only [all, List.forall_mem_cons, List.forall_mem_append,
    List.forall_mem_map, Setting.read_name, true_and]
  exact ⟨⟨hsize, TierSettings.read_of_ofProperties htier⟩, hpools, hworkers,
    hrouting, hwidth, hlimit, hfields, by simp⟩

theorem Settings.eq_of_all {settings other : Settings}
    (h : ∀ setting ∈ all, setting.value settings = setting.value other) :
    settings = other := by
  simp only [all, List.forall_mem_cons, List.forall_mem_append,
    List.forall_mem_map] at h
  obtain ⟨⟨hsize, htier⟩, hrest⟩ := h
  have htier := TierSettings.eq_of_all htier
  obtain ⟨_, _, _, _, _, ⟨_, _, _⟩, _⟩ := settings
  obtain ⟨_, _, _, _, _, ⟨_, _, _⟩, _⟩ := other
  simp_all

end Reading

namespace Settings

variable {settings : Settings} {properties others : Properties}
  {e : SettingsError}

theorem keys_all : all.map Setting.key = Key.all := rfl

theorem nodup_keys : Key.all.Nodup := by decide

/-- Properties that give every key the text of its setting. -/
def toProperties (settings : Settings) : Properties :=
  Properties.empty.setAll
    (all.map fun setting => (setting.key, setting.text settings))

theorem get?_toProperties {setting : Setting Settings} (h : setting ∈ all) :
    settings.toProperties.get? setting.key = some (setting.text settings) := by
  have hkeys : ((all.map fun setting =>
      (setting.key, setting.text settings)).reverse.map Prod.fst).Nodup := by
    rw [List.map_reverse, List.nodup_reverse, List.map_map]
    exact nodup_keys
  rw [toProperties, Properties.get?_setAll,
    (Properties.lookup_eq_some_iff_mem hkeys).2, Option.some_or]
  exact List.mem_reverse.2 (List.mem_map.2 ⟨setting, h, rfl⟩)

theorem exists_ofProperties_error_iff :
    (∃ e, ofProperties properties = .error e) ↔
      ∃ setting ∈ all, setting.Rejects properties := by
  simp only [← error?_eq_some_iff, error?_ofProperties]
  rw [← Option.isSome_iff_exists, List.findSome?_isSome_iff]
  refine exists_congr fun setting => and_congr_right fun _ => ?_
  rw [Option.isSome_iff_ne_none, Ne, Setting.fault?_eq_none_iff, not_not]

theorem ofProperties_eq_error_iff :
    ofProperties properties = .error e ↔
      ∃ before setting after text cause, all = before ++ setting :: after ∧
        (∀ earlier ∈ before, ¬earlier.Rejects properties) ∧
        properties.get? setting.key = some text ∧
        Spelling.WritesNone setting.α text ∧
        (Readable.read text : Except ValueError setting.α) = .error cause ∧
        e = .invalid setting.key (.unreadable text cause) := by
  rw [← error?_eq_some_iff, error?_ofProperties, List.findSome?_eq_some_iff]
  simp only [Setting.fault?_eq_some_iff, Setting.fault?_eq_none_iff]
  constructor
  · rintro ⟨before, setting, after, hall, ⟨text, cause, hfault⟩, hbefore⟩
    exact ⟨before, setting, after, text, cause, hall, hbefore, hfault⟩
  · rintro ⟨before, setting, after, text, cause, hall, hbefore, hfault⟩
    exact ⟨before, setting, after, hall, ⟨text, cause, hfault⟩, hbefore⟩

theorem ofProperties_of_read
    (h : ∀ setting ∈ all,
      setting.read {} properties = .ok (setting.value settings)) :
    ofProperties properties = .ok settings := by
  have hsound : error? (ofProperties properties) = none := by
    rw [error?_ofProperties, List.findSome?_eq_none_iff]
    intro setting hsetting
    exact error?_eq_none_iff.2 ⟨_, h setting hsetting⟩
  obtain ⟨other, hother⟩ := error?_eq_none_iff.1 hsound
  have hsame : other = settings := by
    refine eq_of_all fun setting hsetting => ?_
    have hvalue := read_of_ofProperties hother setting hsetting
    rw [h setting hsetting] at hvalue
    exact (Except.ok.inj hvalue).symm
  rw [hother, hsame]

theorem ofProperties_congr
    (h : ∀ key ∈ Key.all, properties.get? key = others.get? key) :
    ofProperties properties = ofProperties others := by
  have hread : ∀ setting ∈ all,
      setting.read {} properties = setting.read {} others := by
    intro setting hsetting
    exact Setting.read_congr (h _ (keys_all ▸ List.mem_map_of_mem hsetting))
  cases hproperties : ofProperties properties with
  | ok settings =>
      symm
      apply ofProperties_of_read
      intro setting hsetting
      rw [← hread setting hsetting]
      exact read_of_ofProperties hproperties setting hsetting
  | error e =>
      symm
      rw [← error?_eq_some_iff, error?_ofProperties] at hproperties ⊢
      rw [← hproperties]
      refine findSome?_congr fun setting hsetting => ?_
      rw [Setting.fault?, Setting.fault?, hread setting hsetting]

/-- The settings of properties are those that the keys ask for: a key decides
over its own setting only, keys of no setting decide over nothing, and
properties that give every key the text of its setting are read as the settings.
Reading fails if some text writes no value of its setting, with the first such
text in the order of the settings. -/
theorem settings_follow_keys :
    all.map Setting.key = Key.all ∧
    (∀ settings : Settings,
      (∀ setting ∈ all,
        settings.toProperties.get? setting.key = some (setting.text settings)) ∧
      ∀ properties : Properties,
        (∀ setting ∈ all,
          properties.get? setting.key = some (setting.text settings)) →
        ofProperties properties = .ok settings) ∧
    (∀ properties settings, ofProperties properties = .ok settings →
      (∀ setting ∈ all,
        setting.Asks {} properties (setting.value settings)) ∧
      ∀ others another, ofProperties others = .ok another →
        ∀ setting ∈ all,
          properties.get? setting.key = others.get? setting.key →
          setting.value settings = setting.value another) ∧
    (∀ properties others : Properties,
      (∀ key ∈ Key.all, properties.get? key = others.get? key) →
      ofProperties properties = ofProperties others) ∧
    ∀ properties : Properties,
      ((∃ e, ofProperties properties = .error e) ↔
        ∃ setting ∈ all, setting.Rejects properties) ∧
      ∀ e, ofProperties properties = .error e ↔
        ∃ before setting after text cause, all = before ++ setting :: after ∧
          (∀ earlier ∈ before, ¬earlier.Rejects properties) ∧
          properties.get? setting.key = some text ∧
          Spelling.WritesNone setting.α text ∧
          (Readable.read text : Except ValueError setting.α) = .error cause ∧
          e = .invalid setting.key (.unreadable text cause) := by
  refine ⟨keys_all, ?_, ?_, fun properties others => ofProperties_congr,
    fun properties => ⟨exists_ofProperties_error_iff,
      fun e => ofProperties_eq_error_iff⟩⟩
  · refine fun settings => ⟨fun setting => get?_toProperties, ?_⟩
    intro properties h
    apply ofProperties_of_read
    intro setting hsetting
    rw [Setting.read_eq_ok_iff, Setting.Asks, h setting hsetting]
    exact Spelling.writes_text _
  · intro properties settings h
    have hread := read_of_ofProperties h
    refine ⟨fun setting hsetting =>
      Setting.read_eq_ok_iff.1 (hread setting hsetting), ?_⟩
    intro others another hothers setting hsetting hkey
    have hvalue := read_of_ofProperties hothers setting hsetting
    rw [← Setting.read_congr hkey, hread setting hsetting] at hvalue
    exact Except.ok.inj hvalue

/-- Settings with a text for each are read back; of two bad numbers the one of
the setting that comes first is reported. -/
theorem settings_follow_keys_twoBad :
    (let settings : Settings := { poolCount := 3, readRouting := .key }
     ofProperties settings.toProperties = .ok settings) ∧
    let bad :=
      (Properties.empty.set Key.maxWorkers "many").set Key.poolCount "-1"
    ofProperties bad = .error
      (.invalid Key.poolCount (.unreadable "-1" (.natural .badDigit))) := by
  obtain ⟨-, hround, -, -, hbad⟩ := settings_follow_keys
  constructor
  · exact (hround _).2 _ (hround _).1
  · intro bad
    refine ((hbad bad).2 _).2 ⟨all.take 13, ⟨Key.poolCount, poolCount⟩,
      all.drop 14, "-1", .natural .badDigit, rfl, ?_, ?_, ?_, rfl, rfl⟩
    · have hkeys : ∀ key ∈ Key.all.take 13,
          key ≠ Key.maxWorkers ∧ key ≠ Key.poolCount := by decide
      rintro setting hsetting ⟨text, htext, -⟩
      obtain ⟨hworkers, hpools⟩ := hkeys setting.key
        (List.mem_map_of_mem (f := Setting.key) hsetting)
      simp [bad, Properties.get?_set, hworkers.symm, hpools.symm] at htext
    · simp [bad, Properties.get?_set]
    · exact .inr (.inl ⟨'-', by decide, by decide⟩)

end Settings

end TieredCache
