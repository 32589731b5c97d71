import BlockInventory.Proofs.Inventory.Collection
import BlockInventory.Proofs.Inventory.Records

/-!
# The unit of an inventory

Inventories of one host in two units end alike, and if they succeed, differ in sizes alone. In the coarser unit no size
is greater.
-/

set_option autoImplicit false

namespace BlockInventory

namespace MountedPartition

/-- The same partition in a coarser unit. -/
structure Coarsens (fine coarse : MountedPartition) : Prop where
  mountPoint : coarse.mountPoint = fine.mountPoint
  availableSize : coarse.availableSize = fine.availableSize
  size_le : coarse.size ≤ fine.size

theorem ofMount_coarsens {fine coarse : UInt64} (finer : Size.effectiveUnit fine ≤ Size.effectiveUnit coarse)
    (host : Host) (partitions : PartitionTable) (name mountPoint : String) :
    (ofMount host partitions fine name mountPoint).Coarsens (ofMount host partitions coarse name mountPoint) where
  mountPoint := rfl
  availableSize := rfl
  size_le := by
    simp only [ofMount]
    cases partitions.get? name with
    | none => exact UInt64.le_refl 0
    | some blocks => exact Size.ofBlocks_antitone finer blocks

end MountedPartition

namespace Device

/-- The same device in a coarser unit. The partitions are compared one by one, in the order of their names. -/
structure Coarsens (fine coarse : Device) : Prop where
  name : coarse.name = fine.name
  driver : coarse.driver = fine.driver
  vendor : coarse.vendor = fine.vendor
  model : coarse.model = fine.model
  serial : coarse.serial = fine.serial
  size_le : coarse.size ≤ fine.size
  partitions : Option.Rel (fun fine coarse : SortedMap MountedPartition =>
    List.Forall₂ (fun fine coarse => coarse.1 = fine.1 ∧ fine.2.Coarsens coarse.2) fine.entries coarse.entries)
    fine.partitions coarse.partitions

variable {host : Host} {locations : Locations} {tables : Tables} {fine coarse : UInt64}

theorem ofEntry_coarsens (finer : Size.effectiveUnit fine ≤ Size.effectiveUnit coarse) (entry : BlockEntry) :
    (ofEntry host locations tables fine entry).Coarsens (ofEntry host locations tables coarse entry) where
  name := rfl
  driver := rfl
  vendor := rfl
  model := rfl
  serial := rfl
  size_le := Size.ofSectors_antitone finer _
  partitions := by
    simp only [ofEntry, partitions?_eq]
    split
    · exact .none
    · apply Option.Rel.some
      simp only [SortedMap.mapEntries, List.forall₂_map_left_iff, List.forall₂_map_right_iff]
      apply List.forall₂_same.mpr
      intro entry _
      exact ⟨rfl, MountedPartition.ofMount_coarsens finer host tables.partitions entry.1 entry.2⟩

end Device

/-- The unit scales sizes and nothing else: in a coarser unit an inventory fails as in the finer one, or has the same
records in the same order, with no size greater. -/
theorem Host.inventory_coarsens (host : Host) (locations : Locations) {fine coarse : Config}
    (finer : fine.effectiveUnit ≤ coarse.effectiveUnit) :
    SameOutcome (List.Forall₂ Device.Coarsens) (host.inventory locations fine) (host.inventory locations coarse) ∧
      host.inventory locations { unit := 0 } = host.inventory locations { unit := 1000 } := by
  have divisors : Size.effectiveUnit fine.effectiveUnit ≤ Size.effectiveUnit coarse.effectiveUnit := by
    rw [Config.effectiveUnit, Config.effectiveUnit, Size.effectiveUnit_idem, Size.effectiveUnit_idem]
    exact finer
  simp only [Host.inventory_eq_map_read]
  constructor
  · apply SameOutcome.map
    intro sources _
    apply Device.forall₂_ofNames sources.names
    intro _ entry _
    exact Device.ofEntry_coarsens divisors entry
  · rfl

/-- A host with a disk of 100 GiB, of which one partition of 1 GiB is mounted. -/
def measuredHost : Host where
  files := {
    root := [
      (nameOf "sys", .directory [
        (nameOf "block", .directory [(nameOf "sda", .link (.ofString "../devices/sda"))]),
        (nameOf "devices", .directory [(nameOf "sda", .directory [(nameOf "size", fileOf "209715200\n")])])]),
      (nameOf "proc", .directory [
        (nameOf "mounts", fileOf "/dev/sda1 /mnt ext4 rw 0 0\n"),
        (nameOf "partitions", fileOf "8 1 1048576 sda1\n")])]
    workingDirectory := [] }
  freeSpace := fun _ => .ok { availableFragments := 2048, fragmentSize := 4096, blockSize := 4096 }
where
  nameOf (name : String) : Name := Text.Utf8.encode name.toList
  fileOf (text : String) : Node := .file (Text.Utf8.encode text.toList)

def decimalDisk : Device where
  name := "sda"
  size := 107374
  partitions := some (.ofLast [("sda1", { mountPoint := some "/mnt", size := 1073, availableSize := 8 })])

def binaryDisk : Device where
  name := "sda"
  size := 102400
  partitions := some (.ofLast [("sda1", { mountPoint := some "/mnt", size := 1024, availableSize := 8 })])

theorem Host.inventory_coarsens_binary :
    measuredHost.inventory .live { unit := 0 } = .ok [decimalDisk] ∧
      measuredHost.inventory .live { unit := 1024 } = .ok [binaryDisk] ∧
      SameOutcome (List.Forall₂ Device.Coarsens) (measuredHost.inventory .live { unit := 0 })
        (measuredHost.inventory .live { unit := 1024 }) := by
  have decimal : measuredHost.inventory .live { unit := 0 } = .ok [decimalDisk] := by decide +kernel
  have binary : measuredHost.inventory .live { unit := 1024 } = .ok [binaryDisk] := by decide +kernel
  exact ⟨decimal, binary, (Host.inventory_coarsens measuredHost .live (by decide)).1⟩

end BlockInventory
