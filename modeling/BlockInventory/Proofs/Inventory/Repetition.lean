import BlockInventory.Proofs.Inventory.Collection
import BlockInventory.Proofs.Inventory.Selection

/-!
# Repeated runs

Two runs over the same files end alike, whatever the system answers about free space and in whatever order each run
visits the mount table: they fail with the same failure, or their records differ in free space alone. Where the answers
are the same, so are the records, since a visit never puts one partition in the place of another.
-/

set_option autoImplicit false

namespace BlockInventory

/-! ## Orders of a visit -/

/-- For each device an order in which the rows of a mount table are visited. -/
structure VisitingOrder where
  visit : (device : List Char) → List (String × String) → List (String × String)
  perm (device : List Char) (rows : List (String × String)) : (visit device rows).Perm rows

namespace VisitingOrder

def listed : VisitingOrder where
  visit := fun _ rows => rows
  perm := fun _ rows => .refl rows

def reversed : VisitingOrder where
  visit := fun _ rows => rows.reverse
  perm := fun _ rows => rows.reverse_perm

end VisitingOrder

def Tables.inOrder (tables : Tables) (order : VisitingOrder) (device : List Char) : Tables :=
  { tables with mounts := order.visit device tables.mounts }

/-- The inventory that a run makes if it visits the mount table in a given order. -/
def Host.inventoryInOrder (host : Host) (order : VisitingOrder) (locations : Locations) (config : Config) :
    Except InventoryError (List Device) :=
  (Sources.read host.files locations).map fun sources =>
    sources.names.filterMap fun name =>
      Device.ofName? host locations (sources.tables.inOrder order name) config.effectiveUnit name

theorem Host.inventoryInOrder_listed (host : Host) (locations : Locations) (config : Config) :
    host.inventoryInOrder .listed locations config = host.inventory locations config :=
  (host.inventory_eq_map_read locations config).symm

theorem Tables.nodup_sources {files : FileTree} {locations : Locations} {tables : Tables}
    (read : Tables.read files locations = .ok tables) : (tables.mounts.map (·.1)).Nodup := by
  obtain ⟨mounts, partitions, _, _, rfl⟩ := Tables.read_eq_ok_iff.mp read
  exact (MountTable.ofText mounts).ascend.nodup_keys

namespace Device

variable {host : Host} {locations : Locations} {tables : Tables} {unit : UInt64} {name : List Char}

theorem partitions?_inOrder (distinct : (tables.mounts.map (·.1)).Nodup) (order : VisitingOrder) (device : List Char) :
    partitions? host (tables.inOrder order device) unit device = partitions? host tables unit device := by
  have same := MountedPartition.ofTableRows_eq_of_perm host tables.partitions unit device
    (order.perm device tables.mounts) ((order.perm device tables.mounts).map (·.1) |>.symm.nodup distinct)
  rw [partitions?, partitions?, ← same]
  rfl

theorem ofEntry_inOrder (distinct : (tables.mounts.map (·.1)).Nodup) (order : VisitingOrder) (entry : BlockEntry) :
    ofEntry host locations (tables.inOrder order entry.name) unit entry = ofEntry host locations tables unit entry := by
  simp only [ofEntry, partitions?_inOrder distinct order entry.name]

end Device

theorem Host.inventoryInOrder_eq_inventory (host : Host) (order : VisitingOrder) (locations : Locations)
    (config : Config) : host.inventoryInOrder order locations config = host.inventory locations config := by
  rw [inventoryInOrder, inventory_eq_map_read]
  cases read : Sources.read host.files locations with
  | error failure => rfl
  | ok sources =>
      have distinct := Tables.nodup_sources (Sources.read_eq_ok_iff.mp read).2
      apply congrArg Except.ok
      rw [← List.forall₂_eq_eq_eq]
      apply Device.forall₂_ofNames sources.names
      intro _ entry found
      obtain ⟨_, _, rfl⟩ := BlockEntry.find?_eq_some_iff.mp found
      exact Device.ofEntry_inOrder distinct order _

/-! ## Free space -/

def MountedPartition.withoutFreeSpace (partition : MountedPartition) : MountedPartition :=
  { partition with availableSize := 0 }

def Device.withoutFreeSpace (device : Device) : Device :=
  { device with
    partitions := device.partitions.map (SortedMap.mapEntries fun _ partition => partition.withoutFreeSpace) }

namespace Device

variable {files : FileTree} {locations : Locations} {tables : Tables} {unit : UInt64}
  {freeSpace otherFreeSpace : Path → Except SystemError FreeSpace}

theorem withoutFreeSpace_ofEntry (entry : BlockEntry) :
    (ofEntry { files, freeSpace } locations tables unit entry).withoutFreeSpace =
      (ofEntry { files, freeSpace := otherFreeSpace } locations tables unit entry).withoutFreeSpace := by
  have partitions : (partitions? { files, freeSpace } tables unit entry.name).map
        (SortedMap.mapEntries fun _ partition => partition.withoutFreeSpace) =
      (partitions? { files, freeSpace := otherFreeSpace } tables unit entry.name).map
        (SortedMap.mapEntries fun _ partition => partition.withoutFreeSpace) := by
    simp only [partitions?_eq]
    split
    · rfl
    · simp only [Option.map_some, SortedMap.mapEntries_mapEntries]
      rfl
  simp only [withoutFreeSpace, ofEntry, partitions]

end Device

/-- Answers about free space make no other difference to an inventory. -/
theorem Host.sameOutcome_withoutFreeSpace (files : FileTree) (locations : Locations) (config : Config)
    (freeSpace otherFreeSpace : Path → Except SystemError FreeSpace) :
    SameOutcome (fun devices others => devices.map Device.withoutFreeSpace = others.map Device.withoutFreeSpace)
      (inventory { files, freeSpace } locations config)
      (inventory { files, freeSpace := otherFreeSpace } locations config) := by
  rw [inventory_eq_map_read, inventory_eq_map_read]
  apply SameOutcome.map
  intro sources _
  rw [← List.forall₂_eq_eq_eq, List.forall₂_map_left_iff, List.forall₂_map_right_iff]
  apply Device.forall₂_ofNames sources.names
  intro _ entry _
  exact Device.withoutFreeSpace_ofEntry entry

/-! ## Nothing is lost -/

/-- Every row that the visit has for the device is put under a new name, and none is left out. -/
structure Device.CollectsEach (host : Host) (config : Config) (order : VisitingOrder) (tables : Tables)
    (device : Device) : Prop where
  fresh : SortedMap.FillsFresh .empty ((order.visit device.name.toList tables.mounts).filterMap
    (MountedPartition.ofTableRow? host tables.partitions config.effectiveUnit device.name.toList))
  count : device.partitionCount =
    tables.mounts.countP fun row => (deviceDirectory ++ device.name.toList).isPrefixOf row.1.toList

theorem Device.collectsEach_ofEntry {host : Host} {locations : Locations} {config : Config} {tables : Tables}
    (distinct : (tables.mounts.map (·.1)).Nodup) (order : VisitingOrder) (entry : BlockEntry) :
    (ofEntry host locations tables config.effectiveUnit entry).CollectsEach host config order tables := by
  have name := toList_name_ofEntry host locations tables config.effectiveUnit entry
  constructor
  · rw [name]
    exact MountedPartition.fillsFresh_ofTableRow? _ _ _ _
      (((order.perm entry.name tables.mounts).map (·.1)).symm.nodup distinct)
  · rw [name, partitionCount, partitionEntries_of_partitions? rfl, ← MountedPartition.size_ofTableRows distinct]
    rfl

/-- Runs over the same files fail alike, or differ in free space alone; with the same answers about free space the
order of the visit makes no difference, for no partition ever takes the place of another. -/
theorem Host.inventory_repeatable (files : FileTree) (locations : Locations) (config : Config)
    (freeSpace otherFreeSpace : Path → Except SystemError FreeSpace) (order otherOrder : VisitingOrder) :
    SameOutcome (fun devices others => devices.map Device.withoutFreeSpace = others.map Device.withoutFreeSpace)
        (inventoryInOrder { files, freeSpace } order locations config)
        (inventoryInOrder { files, freeSpace := otherFreeSpace } otherOrder locations config) ∧
      inventoryInOrder { files, freeSpace } order locations config =
        inventoryInOrder { files, freeSpace } otherOrder locations config ∧
      ∀ devices, inventoryInOrder { files, freeSpace } order locations config = .ok devices →
        ∃ tables, Tables.read files locations = .ok tables ∧
          ∀ device ∈ devices, device.CollectsEach { files, freeSpace } config order tables := by
  simp only [inventoryInOrder_eq_inventory]
  refine ⟨sameOutcome_withoutFreeSpace files locations config freeSpace otherFreeSpace, trivial, ?_⟩
  intro devices success
  rw [inventory_eq_map_read] at success
  obtain ⟨sources, read, made⟩ := map_eq_ok_iff.mp success
  obtain ⟨_, readTables⟩ := Sources.read_eq_ok_iff.mp read
  refine ⟨sources.tables, readTables, ?_⟩
  intro device member
  rw [← made] at member
  obtain ⟨_, _, entry, _, _, rfl⟩ := Host.mem_devices_iff.mp member
  exact Device.collectsEach_ofEntry (Tables.nodup_sources readTables) order entry

/-- A host on which two partitions of a disk are mounted, one of them twice. -/
def busyHost : Host :=
  .ofTables ["sda"] "/dev/sda2 /srv ext4\n/dev/sda1 / ext4\n/dev/sda2 /opt ext4\n" ""

/-- What the system answers of file systems with eight mebibytes left. -/
def eightMebibytes (_ : Path) : Except SystemError FreeSpace :=
  .ok { availableFragments := 2048, fragmentSize := 4096, blockSize := 4096 }

def busyDisk (availableSize : UInt64) : Device where
  name := "sda"
  partitions := some (.ofLast [
    ("sda1", { mountPoint := some "/", availableSize }), ("sda2", { mountPoint := some "/srv", availableSize })])

theorem Host.inventory_repeatable_reversed :
    inventoryInOrder busyHost .listed .live {} = .ok [busyDisk 0] ∧
      inventoryInOrder { files := busyHost.files, freeSpace := eightMebibytes } .reversed .live {} = .ok [busyDisk 8] ∧
      SameOutcome (fun devices others => devices.map Device.withoutFreeSpace = others.map Device.withoutFreeSpace)
        (inventoryInOrder busyHost .listed .live {})
        (inventoryInOrder { files := busyHost.files, freeSpace := eightMebibytes } .reversed .live {}) ∧
      ∃ tables, Tables.read busyHost.files .live = .ok tables ∧
        (busyDisk 0).CollectsEach busyHost {} .listed tables := by
  have listed : inventoryInOrder busyHost .listed .live {} = .ok [busyDisk 0] := by decide +kernel
  have reversed : inventoryInOrder { files := busyHost.files, freeSpace := eightMebibytes } .reversed .live {} =
      .ok [busyDisk 8] := by decide +kernel
  obtain ⟨same, _, collected⟩ :=
    Host.inventory_repeatable busyHost.files .live {} busyHost.freeSpace eightMebibytes .listed .reversed
  obtain ⟨tables, read, each⟩ := collected [busyDisk 0] listed
  exact ⟨listed, reversed, same, tables, read, each (busyDisk 0) List.mem_cons_self⟩

end BlockInventory
