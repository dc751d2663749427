import Mathlib
import TieredCache.Proofs.Settings.Hierarchy
import TieredCache.Proofs.Settings.Spelling

/-!
# Paths of instances

A device name may have underscores and digits of its own, and may end like the
path of an instance.  The number that makes it a path has none of the former, so
the last underscore of the path is the one before it, and the path can be read
back.  Instances therefore have no path in common.
-/

namespace TieredCache.TierSettings

variable {settings other : TierSettings} {hierarchy otherHierarchy : Hierarchy}
  {key name path : String} {capacityGb : UInt64} {instanceNumber : UInt32}

/-- The device name and the instance that a path is for: what stands before its
last underscore, and the number after it. -/
def owner? (path : String) : Option (String × UInt32) :=
  match Text.cut? '_' path.toList.reverse with
  | none => none
  | some (number, name) =>
      match Readable.read (String.ofList number.reverse) with
      | .ok instanceNumber =>
          some (String.ofList name.reverse, instanceNumber)
      | .error _ => none

theorem toList_instancePath (name : String) (instanceNumber : UInt32) :
    (instancePath name instanceNumber).toList =
      name.toList ++ '_' :: (toString instanceNumber.toNat).toList := by
  have hpath : instancePath name instanceNumber =
      name ++ "_" ++ toString instanceNumber.toNat := rfl
  rw [hpath, String.toList_append, String.toList_append, List.append_assoc]
  rfl

theorem notMem_toString (n : Nat) : '_' ∉ (toString n).toList := by
  intro hmem
  rw [Nat.toString_eq_repr, Nat.toList_repr] at hmem
  exact absurd (Nat.isDigit_of_mem_toDigits (by decide) (by decide) hmem)
    (by decide)

theorem owner?_instancePath (name : String) (instanceNumber : UInt32) :
    owner? (instancePath name instanceNumber) = some (name, instanceNumber) := by
  have hcut : Text.cut? '_' (instancePath name instanceNumber).toList.reverse =
      some ((toString instanceNumber.toNat).toList.reverse,
        name.toList.reverse) := by
    rw [Text.cut?_eq_some_iff, toList_instancePath]
    refine ⟨by simp, ?_⟩
    rw [List.mem_reverse]
    exact notMem_toString _
  have hread : Readable.read (toString instanceNumber.toNat) =
      .ok instanceNumber :=
    Spelling.read_eq_ok_iff.2 (Decimal.writesNatural_toString _)
  simp only [owner?, hcut, List.reverse_reverse, String.ofList_toList, hread]

theorem instancePath_eq_iff {otherName : String} {otherNumber : UInt32} :
    instancePath name instanceNumber = instancePath otherName otherNumber ↔
      name = otherName ∧ instanceNumber = otherNumber := by
  constructor
  · intro h
    have howner := congrArg owner? h
    rw [owner?_instancePath, owner?_instancePath, Option.some.injEq,
      Prod.mk.injEq] at howner
    exact howner
  · rintro ⟨rfl, rfl⟩
    rfl

theorem owner?_device {result : Device}
    (h : device key name capacityGb instanceNumber = .ok result) :
    owner? result.path = some (name, instanceNumber) := by
  obtain ⟨-, rfl⟩ := device_eq_ok_iff.1 h
  exact owner?_instancePath name instanceNumber

theorem map_owner?_paths (h : settings.hierarchy = .ok hierarchy) :
    hierarchy.paths.map owner? =
      [some (settings.largeDevice, settings.instanceNumber),
       some (settings.fastDevice, settings.instanceNumber)] := by
  rw [(repeats_of_hierarchy h).paths]
  simp only [List.map_cons, List.map_nil, owner?_instancePath]

theorem instance_of_mem_paths (h : settings.hierarchy = .ok hierarchy)
    (hpath : path ∈ hierarchy.paths) :
    (owner? path).map Prod.snd = some settings.instanceNumber := by
  have hmem : owner? path ∈ hierarchy.paths.map owner? :=
    List.mem_map_of_mem hpath
  rw [map_owner?_paths h, List.mem_cons, List.mem_singleton] at hmem
  rcases hmem with howner | howner <;> rw [howner] <;> rfl

/-- The path of a device says which name and which instance it is for, so that
two devices with one path agree in both.  Hierarchies of different instances have
no path in common, whatever the names of their devices. -/
theorem instances_share_no_path :
    (∀ name otherName instanceNumber otherNumber,
      instancePath name instanceNumber = instancePath otherName otherNumber ↔
        name = otherName ∧ instanceNumber = otherNumber) ∧
    (∀ key name capacityGb instanceNumber result,
      device key name capacityGb instanceNumber = .ok result →
        owner? result.path = some (name, instanceNumber)) ∧
    ∀ settings other hierarchy otherHierarchy,
      TierSettings.hierarchy settings = .ok hierarchy →
      TierSettings.hierarchy other = .ok otherHierarchy →
      settings.instanceNumber ≠ other.instanceNumber →
      hierarchy.paths.Disjoint otherHierarchy.paths := by
  refine ⟨fun _ _ _ _ => instancePath_eq_iff, fun _ _ _ _ _ => owner?_device, ?_⟩
  intro settings other hierarchy otherHierarchy h hother hne path hpath hshared
  have howner := instance_of_mem_paths h hpath
  rw [instance_of_mem_paths hother hshared, Option.some.injEq] at howner
  exact hne howner.symm

/-- One device name ends like the path of an instance, and begins like another
name. -/
theorem instances_share_no_path_suffixes :
    ∃ hierarchy otherHierarchy,
      TierSettings.hierarchy { fastDevice := "a_1", instanceNumber := 2 } =
        .ok hierarchy ∧
      TierSettings.hierarchy
        { fastDevice := "a", largeDevice := "a_1_2", instanceNumber := 1 } =
          .ok otherHierarchy ∧
      hierarchy.paths = ["nvme0_2", "a_1_2"] ∧
      otherHierarchy.paths = ["a_1_2_1", "a_1"] ∧
      hierarchy.paths.Disjoint otherHierarchy.paths := by
  have hvalid : Valid { fastDevice := "a_1", instanceNumber := 2 } := by
    constructor <;> decide
  have hother : Valid
      { fastDevice := "a", largeDevice := "a_1_2", instanceNumber := 1 } := by
    constructor <;> decide
  obtain ⟨hierarchy, h⟩ := exists_hierarchy_iff.2 hvalid
  obtain ⟨otherHierarchy, hother⟩ := exists_hierarchy_iff.2 hother
  refine ⟨hierarchy, otherHierarchy, h, hother, ?_, ?_,
    instances_share_no_path.2.2 _ _ _ _ h hother (by decide)⟩
  · rw [(repeats_of_hierarchy h).paths]
    rfl
  · rw [(repeats_of_hierarchy hother).paths]
    rfl

end TieredCache.TierSettings
