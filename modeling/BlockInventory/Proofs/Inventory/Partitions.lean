import BlockInventory.Proofs.Inventory.Records
import BlockInventory.Proofs.Tables

/-!
# Partitions of a record

Which partitions the record of a device holds and what it tells of each, in terms of the lines of the two tables. A
device claims every mounted source whose name begins with its own, so two devices share partitions exactly when the
name of one begins with that of the other and the longer name claims any.
-/

set_option autoImplicit false

namespace BlockInventory

namespace MountedPartition

variable {host : Host} {partitions : PartitionTable} {unit : UInt64} {device : List Char}

theorem ofTableRow?_eq_some_iff {row : String × String} {name : String} {partition : MountedPartition} :
    ofTableRow? host partitions unit device row = some (name, partition) ↔
      device <+: name.toList ∧ row.1 = String.ofList (deviceDirectory ++ name.toList) ∧
        ofMount host partitions unit name row.2 = partition := by
  simp only [ofTableRow?, List.isPrefixOf_iff_prefix]
  constructor
  · intro read
    split at read
    next beneath =>
      obtain ⟨rest, shape⟩ := beneath
      rw [List.append_assoc] at shape
      rw [← shape, List.drop_left] at read
      cases read
      rw [String.toList_ofList, shape, String.ofList_toList]
      exact ⟨List.prefix_append _ _, rfl, rfl⟩
    next => cases read
  · intro claimed
    obtain ⟨⟨rest, shape⟩, source, rfl⟩ := claimed
    rw [source, String.toList_ofList, List.drop_left, String.ofList_toList, ← shape, ← List.append_assoc,
      if_pos (List.prefix_append _ _)]

/-- The names of claimed rows differ because their sources do. -/
theorem nodup_names {rows : List (String × String)} (distinct : (rows.map (·.1)).Nodup) :
    ((rows.filterMap (ofTableRow? host partitions unit device)).map (·.1)).Nodup := by
  rw [List.Nodup, List.pairwise_map, List.pairwise_filterMap]
  refine (List.pairwise_map.mp distinct).imp ?_
  intro row other different entry read otherEntry otherRead same
  obtain ⟨_, source, _⟩ := ofTableRow?_eq_some_iff.mp read
  obtain ⟨_, otherSource, _⟩ := ofTableRow?_eq_some_iff.mp otherRead
  exact different (by rw [source, otherSource, same])

/-- A device claims the rows whose source begins with its path, in whatever order they are visited. -/
theorem get?_ofTableRows_eq_some_iff (host : Host) (partitions : PartitionTable) (unit : UInt64)
    (device : List Char) {rows : List (String × String)} (distinct : (rows.map (·.1)).Nodup)
    {name : String} {partition : MountedPartition} :
    (ofTableRows host partitions unit device rows).get? name = some partition ↔
      device <+: name.toList ∧
        ∃ mountPoint, (String.ofList (deviceDirectory ++ name.toList), mountPoint) ∈ rows ∧
          ofMount host partitions unit name mountPoint = partition := by
  rw [ofTableRows, SortedMap.get?_ofLast_eq_some_iff_mem (nodup_names distinct), List.mem_filterMap]
  constructor
  · intro claimed
    obtain ⟨⟨source, mountPoint⟩, member, read⟩ := claimed
    obtain ⟨beneath, rfl, made⟩ := ofTableRow?_eq_some_iff.mp read
    exact ⟨beneath, mountPoint, member, made⟩
  · intro claimed
    obtain ⟨beneath, mountPoint, member, made⟩ := claimed
    exact ⟨_, member, ofTableRow?_eq_some_iff.mpr ⟨beneath, rfl, made⟩⟩

/-- A device claims the mounted sources beneath its name, each as the first mount and the last count tell. -/
theorem get?_ofTableRows_ofText_eq_some_iff {mounts table : List Char} {name : String}
    {partition : MountedPartition} :
    (ofTableRows host (.ofText table) unit device (MountTable.ofText mounts).entries).get? name = some partition ↔
      device <+: name.toList ∧
        ∃ field, MountTable.FirstMount mounts (deviceDirectory ++ name.toList) field ∧
          ofMount host (.ofText table) unit name (String.ofList (MountTable.decodeField field)) = partition := by
  rw [get?_ofTableRows_eq_some_iff host (.ofText table) unit device (MountTable.ofText mounts).ascend.nodup_keys]
  constructor
  · intro claimed
    obtain ⟨beneath, mountPoint, member, made⟩ := claimed
    obtain ⟨_, field, first, rfl⟩ :=
      MountTable.get?_ofText_eq_some_iff.mp (SortedMap.get?_eq_some_iff.mpr member)
    rw [String.toList_ofList] at first
    exact ⟨beneath, field, first, made⟩
  · intro claimed
    obtain ⟨beneath, field, first, made⟩ := claimed
    refine ⟨beneath, _, SortedMap.get?_eq_some_iff.mp (MountTable.get?_ofText_eq_some_iff.mpr ?_), made⟩
    rw [String.toList_ofList]
    exact ⟨List.prefix_append _ _, field, first, rfl⟩

end MountedPartition

namespace Device

/-- The names of the partitions that a record holds. -/
def partitionNames (device : Device) : List String :=
  device.partitionEntries.map (·.1)

theorem mem_partitionNames_iff {device : Device} {name : String} :
    name ∈ device.partitionNames ↔ ∃ partition, (name, partition) ∈ device.partitionEntries := by
  simp [partitionNames]

variable {host : Host} {locations : Locations} {unit : UInt64} {mounts partitions : List Char} {entry : BlockEntry}

theorem partitionEntries_of_partitions? {tables : Tables} {device : Device} {claimant : List Char}
    (claimed : device.partitions = partitions? host tables unit claimant) :
    device.partitionEntries
      = (MountedPartition.ofTableRows host tables.partitions unit claimant tables.mounts).entries := by
  rw [partitionEntries, claimed, partitions?]
  cases shape : (MountedPartition.ofTableRows host tables.partitions unit claimant tables.mounts).entries with
  | nil => simp [SortedMap.isEmpty, shape]
  | cons first rest => simp [SortedMap.isEmpty, shape]

/-- A record holds the mounted sources beneath its name, each as the first mount and the last count tell. -/
theorem mem_partitionEntries_ofEntry_iff {name : String} {partition : MountedPartition} :
    (name, partition) ∈ (ofEntry host locations (.ofTexts mounts partitions) unit entry).partitionEntries ↔
      entry.name <+: name.toList ∧
        ∃ field, MountTable.FirstMount mounts (deviceDirectory ++ name.toList) field ∧
          MountedPartition.ofMount host (.ofText partitions) unit name
            (String.ofList (MountTable.decodeField field)) = partition := by
  rw [partitionEntries_of_partitions? rfl, ← SortedMap.get?_eq_some_iff, Tables.mounts_ofTexts,
    Tables.partitions_ofTexts]
  exact MountedPartition.get?_ofTableRows_ofText_eq_some_iff

theorem partitions_ofEntry_eq_none_iff {tables : Tables} :
    (ofEntry host locations tables unit entry).partitions = none ↔
      (ofEntry host locations tables unit entry).partitionEntries = [] := by
  rw [partitionEntries_of_partitions? rfl]
  show partitions? host tables unit entry.name = none ↔ _
  simp [partitions?, SortedMap.isEmpty]

end Device

/-- What the host and the text of its partition table tell of a partition whose encoded mount point is `field`. -/
structure MountedPartition.Correlates (host : Host) (divisor : UInt64) (partitions : List Char) (name : String)
    (field : List Char) (partition : MountedPartition) : Prop where
  mountPoint : partition.mountPoint = some (String.ofList (MountTable.decodeField field))
  size_of_count : ∀ blocks, PartitionTable.LastCount partitions name.toList blocks →
    partition.size.toNat = min (blocks.toNat * 1024) (UInt64.size - 1) / divisor.toNat / divisor.toNat
  size_of_no_count :
    (∀ line ∈ partitions.splitOn '\n', ∀ blocks, ¬PartitionTable.Counts name.toList line blocks) →
      partition.size = 0
  availableSize_of_answer : ∀ space, '\x00' ∉ MountTable.decodeField field →
    host.freeSpace (.ofText (MountTable.decodeField field)) = .ok space →
      partition.availableSize.toNat =
        min (space.availableFragments.toNat *
          (if space.fragmentSize = 0 then space.blockSize else space.fragmentSize).toNat) (UInt64.size - 1) / 1048576
  availableSize_of_no_answer :
    ('\x00' ∈ MountTable.decodeField field ∨
      ∀ space, host.freeSpace (.ofText (MountTable.decodeField field)) ≠ .ok space) →
        partition.availableSize = 0

theorem MountedPartition.ofMount_correlates (host : Host) (unit : UInt64) (partitions : List Char) (name : String)
    {field : List Char} (nonempty : field ≠ []) :
    (ofMount host (.ofText partitions) unit name (String.ofList (MountTable.decodeField field))).Correlates
      host (Size.effectiveUnit unit) partitions name field where
  mountPoint := by
    have decoded : String.ofList (MountTable.decodeField field) ≠ "" := by
      rw [ne_eq, String.ofList_eq_empty_iff]
      exact MountTable.decodeField_ne_nil nonempty
    exact if_neg decoded
  size_of_count := by
    intro blocks counted
    have found : (PartitionTable.ofText partitions).get? name = some blocks :=
      PartitionTable.get?_ofText_eq_some_iff.mpr counted
    simp only [ofMount, found, Size.toNat_ofBlocks]
  size_of_no_count := by
    intro uncounted
    cases found : (PartitionTable.ofText partitions).get? name with
    | none => simp only [ofMount, found]
    | some blocks =>
        obtain ⟨line, member, counts⟩ := (PartitionTable.get?_ofText_eq_some_iff.mp found).exists_mem
        exact absurd counts (uncounted line (List.mem_reverse.mp member) blocks)
  availableSize_of_answer := by
    intro space absent answer
    have available : host.availableMebibytes (.ofText (MountTable.decodeField field)) = .ok space.mebibytes :=
      Host.availableMebibytes_eq_ok_iff.mpr ⟨absent, space, answer, rfl⟩
    simp only [ofMount, Path.ofString, String.toList_ofList, available, FreeSpace.toNat_mebibytes]
    rfl
  availableSize_of_no_answer := by
    intro silent
    cases available : host.availableMebibytes (.ofText (MountTable.decodeField field)) with
    | error error => simp only [ofMount, Path.ofString, String.toList_ofList, available]
    | ok size =>
        obtain ⟨absent, space, answer, _⟩ := Host.availableMebibytes_eq_ok_iff.mp available
        rcases silent with present | refused
        · exact absurd present absent
        · exact absurd answer (refused space)

/-- The record holds exactly the partitions that the text of the mount table mounts beneath its name, each as the
first of its mounts, the last of its counts and the host tell. -/
structure Device.PartitionsCorrelate (host : Host) (divisor : UInt64) (mounts partitions : List Char)
    (device : Device) : Prop where
  mem_names_iff : ∀ name, name ∈ device.partitionNames ↔
    device.name.toList <+: name.toList ∧ ∃ line ∈ mounts.splitOn '\n', ∃ field,
      MountTable.Mounts (deviceDirectory ++ name.toList) line field
  eq_none_iff : device.partitions = none ↔ ¬∃ name : String,
    device.name.toList <+: name.toList ∧ ∃ line ∈ mounts.splitOn '\n', ∃ field,
      MountTable.Mounts (deviceDirectory ++ name.toList) line field
  correlates : ∀ name partition, (name, partition) ∈ device.partitionEntries →
    ∃ field, MountTable.FirstMount mounts (deviceDirectory ++ name.toList) field ∧
      partition.Correlates host divisor partitions name field

theorem Device.ofEntry_partitionsCorrelate (host : Host) (locations : Locations) (unit : UInt64)
    (mounts partitions : List Char) (entry : BlockEntry) :
    (ofEntry host locations (.ofTexts mounts partitions) unit entry).PartitionsCorrelate
      host (Size.effectiveUnit unit) mounts partitions := by
  have names (name : String) :
      name ∈ (ofEntry host locations (.ofTexts mounts partitions) unit entry).partitionNames ↔
        entry.name <+: name.toList ∧ ∃ line ∈ mounts.splitOn '\n', ∃ field,
          MountTable.Mounts (deviceDirectory ++ name.toList) line field := by
    simp only [mem_partitionNames_iff, mem_partitionEntries_ofEntry_iff, ← MountTable.exists_firstMount_iff]
    constructor
    · intro held
      obtain ⟨_, beneath, field, first, _⟩ := held
      exact ⟨beneath, field, first⟩
    · intro mounted
      obtain ⟨beneath, field, first⟩ := mounted
      exact ⟨_, beneath, field, first, rfl⟩
  constructor
  · rw [toList_name_ofEntry]
    exact names
  · rw [toList_name_ofEntry, partitions_ofEntry_eq_none_iff]
    simp only [← names]
    simp [partitionNames, List.eq_nil_iff_forall_not_mem]
  · intro name partition member
    obtain ⟨_, field, first, rfl⟩ := mem_partitionEntries_ofEntry_iff.mp member
    exact ⟨field, first, MountedPartition.ofMount_correlates host unit partitions name first.ne_nil⟩

/-- Names that begin a common name begin one another, so what two devices share is all that the longer name claims. -/
theorem Device.PartitionsCorrelate.disjoint_iff {host : Host} {divisor : UInt64} {mounts partitions : List Char}
    {left right : Device} (onLeft : left.PartitionsCorrelate host divisor mounts partitions)
    (onRight : right.PartitionsCorrelate host divisor mounts partitions) :
    (∀ name ∈ left.partitionNames, name ∉ right.partitionNames) ↔
      (left.name.toList <+: right.name.toList → right.partitions = none) ∧
        (right.name.toList <+: left.name.toList → left.partitions = none) := by
  constructor
  · intro disjoint
    constructor
    · intro shorter
      refine onRight.eq_none_iff.mpr ?_
      intro claimed
      obtain ⟨name, beneath, mounted⟩ := claimed
      exact disjoint name ((onLeft.mem_names_iff name).mpr ⟨shorter.trans beneath, mounted⟩)
        ((onRight.mem_names_iff name).mpr ⟨beneath, mounted⟩)
    · intro shorter
      refine onLeft.eq_none_iff.mpr ?_
      intro claimed
      obtain ⟨name, beneath, mounted⟩ := claimed
      exact disjoint name ((onLeft.mem_names_iff name).mpr ⟨beneath, mounted⟩)
        ((onRight.mem_names_iff name).mpr ⟨shorter.trans beneath, mounted⟩)
  · intro unclaimed name inLeft inRight
    obtain ⟨leftBeneath, mounted⟩ := (onLeft.mem_names_iff name).mp inLeft
    obtain ⟨rightBeneath, _⟩ := (onRight.mem_names_iff name).mp inRight
    rcases List.prefix_or_prefix_of_prefix leftBeneath rightBeneath with shorter | shorter
    · exact onRight.eq_none_iff.mp (unclaimed.1 shorter) ⟨name, rightBeneath, mounted⟩
    · exact onLeft.eq_none_iff.mp (unclaimed.2 shorter) ⟨name, leftBeneath, mounted⟩

/-- Two records of an inventory share no partition exactly when neither has partitions beneath a name that begins
with the other's. -/
theorem Host.disjoint_partitionNames_iff {host : Host} {locations : Locations} {config : Config}
    {devices : List Device} (success : host.inventory locations config = .ok devices)
    {left right : Device} (leftMember : left ∈ devices) (rightMember : right ∈ devices) :
    (∀ name ∈ left.partitionNames, name ∉ right.partitionNames) ↔
      (left.name.toList <+: right.name.toList → right.partitions = none) ∧
        (right.name.toList <+: left.name.toList → left.partitions = none) := by
  obtain ⟨names, mounts, partitions, _, _, _, rfl⟩ := Host.inventory_eq_ok_iff.mp success
  obtain ⟨_, _, leftEntry, _, _, rfl⟩ := Host.mem_devices_iff.mp leftMember
  obtain ⟨_, _, rightEntry, _, _, rfl⟩ := Host.mem_devices_iff.mp rightMember
  exact Device.PartitionsCorrelate.disjoint_iff
    (Device.ofEntry_partitionsCorrelate host locations config.effectiveUnit mounts partitions leftEntry)
    (Device.ofEntry_partitionsCorrelate host locations config.effectiveUnit mounts partitions rightEntry)

/-- A host with two disks, the name of one beginning with that of the other. -/
def twinDiskHost : Host :=
  .ofTables ["sda", "sdaa"] "/dev/sdaa1 /mnt ext4 rw 0 0\n" ""

def shortNamedDisk : Device where
  name := "sda"
  partitions := some (.ofLast [("sdaa1", { mountPoint := some "/mnt" })])

def longNamedDisk : Device where
  name := "sdaa"
  partitions := some (.ofLast [("sdaa1", { mountPoint := some "/mnt" })])

/-- Both disks claim the partition of the one. -/
theorem Host.disjoint_partitionNames_iff_twins :
    twinDiskHost.inventory .live {} = .ok [shortNamedDisk, longNamedDisk] ∧
      ¬∀ name ∈ shortNamedDisk.partitionNames, name ∉ longNamedDisk.partitionNames := by
  have success : twinDiskHost.inventory .live {} = .ok [shortNamedDisk, longNamedDisk] := by decide +kernel
  refine ⟨success, ?_⟩
  rw [Host.disjoint_partitionNames_iff success List.mem_cons_self (List.mem_cons_of_mem _ List.mem_cons_self)]
  intro unclaimed
  have claimed : longNamedDisk.partitions = none := unclaimed.1 (by decide +kernel)
  cases claimed

end BlockInventory
