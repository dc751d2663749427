import Mathlib
import TieredCache.Phase.Step
import TieredCache.Proofs.Store.Fresh

/-!
# A benchmark made from properties

A store and a workload that were made from the same properties agree on the
fields of records and on the keys.
-/

namespace TieredCache

namespace Bench

variable {properties : Properties} {settings : Settings} {bench : Bench}

structure Built (properties : Properties) (settings : Settings)
    (bench : Bench) : Prop where
  reads : Settings.ofProperties properties = .ok settings
  draws : Workload.ofProperties properties
    ⟨Bytes.ofString settings.scan.stem, settings.scan.width.toNat⟩ =
      .ok bench.workload
  keeps : Store.create settings = .ok bench.store

theorem Built.width_pos (h : bench.Built properties settings) :
    0 < settings.scan.width.toNat := by
  have hwidth := bench.store.scanner.width_pos
  rwa [(Store.fresh_create h.keeps).space] at hwidth

theorem Built.mix (h : bench.Built properties settings) :
    Mix.ofProperties properties = .ok bench.workload.mix :=
  (Workload.sound_of_ofProperties h.draws h.width_pos).2.2.2

theorem Built.fresh (h : bench.Built properties settings) :
    bench.store.Fresh settings ∧ bench.workload.Sound ∧
      bench.store.Holds bench.workload (Store.poolBytes settings)
        fun _ => False := by
  have hfresh := Store.fresh_create h.keeps
  obtain ⟨hsound, hkeys, hread, -⟩ :=
    Workload.sound_of_ofProperties h.draws h.width_pos
  have hfields := Settings.fieldCount_of_ofProperties h.reads
  rw [hread, Except.ok.injEq] at hfields
  exact ⟨hfresh, hsound, hfresh.holds hfields hkeys⟩

/-! ## Reads at the shards of keys -/

def keyedProperties : Properties := Properties.empty.set Key.readRouting "key"

def keyedSettings : Settings := { readRouting := .key }

theorem keyedProperties_eq :
    keyedProperties = Properties.empty.setAll [(Key.readRouting, "key")] := rfl

theorem settings_keyedProperties :
    Settings.ofProperties keyedProperties = .ok keyedSettings := by
  rw [keyedProperties_eq]
  simp only [Settings.ofProperties, TierSettings.ofProperties,
    Properties.readD_setAll, Properties.getD_setAll]
  rfl

theorem workload_keyedProperties :
    ∃ workload,
      Workload.ofProperties keyedProperties ⟨Bytes.ofString "user", 12⟩ =
        .ok workload ∧
      workload.keys = ⟨Bytes.ofString "user", 12⟩ ∧
      workload.recordCount = 1000 ∧ workload.operationCount = 1000 ∧
      workload.fieldCount = 10 ∧ workload.fieldLength = 100 := by
  rw [keyedProperties_eq]
  obtain ⟨mix, hmix⟩ : ∃ mix, Mix.ofProperties
      (Properties.empty.setAll [(Key.readRouting, "key")]) = .ok mix := by
    simp only [Mix.ofProperties, Mix.sources, Mix.readFrom,
      Properties.readD_setAll]
    exact ⟨_, rfl⟩
  exact ⟨_, Workload.ofProperties_of_reads
    (Properties.readD_setAll_of_none rfl _)
    (Properties.readD_setAll_of_none rfl _)
    (Properties.readD_setAll_of_none rfl _)
    (Properties.readD_setAll_of_none rfl _) hmix
    (Properties.readD_setAll_of_none rfl _)
    (Properties.readD_setAll_of_none rfl _) (by decide) (by decide)
    (by decide), rfl, rfl, rfl, rfl, rfl⟩

theorem built_keyedProperties :
    ∃ bench : Bench, bench.Built keyedProperties keyedSettings ∧
      bench.workload.keys = ⟨Bytes.ofString "user", 12⟩ ∧
      bench.workload.recordCount = 1000 ∧
      bench.workload.operationCount = 1000 ∧
      bench.workload.fieldCount = 10 ∧ bench.workload.fieldLength = 100 := by
  obtain ⟨workload, hworkload, hsizes⟩ := workload_keyedProperties
  obtain ⟨store, hstore⟩ : ∃ store,
      Store.create keyedSettings = .ok store := ⟨_, rfl⟩
  exact ⟨⟨store, workload⟩,
    ⟨settings_keyedProperties, hworkload, hstore⟩, hsizes⟩

end Bench

end TieredCache
