import BlockInventory.Proofs.Inventory.Partitions
import BlockInventory.Proofs.Inventory.Selection

/-!
# What a record depends on

Two hosts that agree on one device report it alike, whatever other devices they register, mount and count: the lines
of the tables for other devices come between, but neither the first mount nor the last count of a partition is theirs.
-/

set_option autoImplicit false

namespace BlockInventory

/-! ## Readers that take any failure alike -/

namespace FileTree

variable {tree : FileTree} {path : Path}

theorem attributeText_eq_getD :
    tree.attributeText path =
      ((tree.readBytes path).toOption.map fun content => Text.trim (Text.Utf8.decodeLossy content)).getD [] := by
  unfold attributeText
  cases tree.readBytes path <;> rfl

theorem linkName?_eq_bind :
    tree.linkName? path =
      (tree.readLink path).toOption.bind fun target => target.fileName?.map Text.Utf8.decodeLossy := by
  unfold linkName?
  cases tree.readLink path <;> rfl

end FileTree

theorem Host.toOption_availableMebibytes (host : Host) (mountPoint : Path) :
    (host.availableMebibytes mountPoint).toOption =
      if (mountPoint.bytes.findIdx? (· == 0)).isSome then none
      else (host.freeSpace mountPoint).toOption.map FreeSpace.mebibytes := by
  unfold availableMebibytes
  cases mountPoint.bytes.findIdx? (· == 0) with
  | some position => rfl
  | none => cases host.freeSpace mountPoint <;> rfl

theorem MountedPartition.ofMount_congr {left right : Host} {leftTable rightTable : PartitionTable} {unit : UInt64}
    {name mountPoint : String} (count : leftTable.get? name = rightTable.get? name)
    (answer : (left.freeSpace (.ofString mountPoint)).toOption = (right.freeSpace (.ofString mountPoint)).toOption) :
    ofMount left leftTable unit name mountPoint = ofMount right rightTable unit name mountPoint := by
  have available (host : Host) :
      (ofMount host leftTable unit name mountPoint).availableSize =
        (host.availableMebibytes (.ofString mountPoint)).toOption.getD 0 := by
    simp only [ofMount]
    cases host.availableMebibytes (.ofString mountPoint) <;> rfl
  have same := available left
  rw [Host.toOption_availableMebibytes, answer, ← Host.toOption_availableMebibytes, ← available right] at same
  simp only [ofMount] at same ⊢
  rw [count, same]

/-! ## Agreement -/

/-- A host with the texts of its tables. -/
structure TabledHost where
  host : Host
  locations : Locations
  mounts : List Char
  partitions : List Char
  mounts_read : host.files.readText locations.mountTable = .ok mounts
  partitions_read : host.files.readText locations.partitionTable = .ok partitions

namespace TabledHost

def entry (source : TabledHost) (name : List Char) : Path :=
  source.locations.registry.join (.ofText name)

/-- The hardware behind an entry. -/
def hardware (source : TabledHost) (name : List Char) : Path :=
  (source.entry name).join (.ofString "device")

def content? (source : TabledHost) (path : Path) : Option (List UInt8) :=
  (source.host.files.readBytes path).toOption

def link? (source : TabledHost) (path : Path) : Option Path :=
  (source.host.files.readLink path).toOption

def freeSpace? (source : TabledHost) (mountPoint : List Char) : Option FreeSpace :=
  (source.host.freeSpace (.ofText mountPoint)).toOption

def tables (source : TabledHost) : Tables :=
  .ofTexts source.mounts source.partitions

def Registers (source : TabledHost) (name : List Char) : Prop :=
  ∃ names, registeredNames source.host.files source.locations.registry = .ok names ∧ name ∈ names

/-- The hosts agree on everything that concerns one device: its entry, its attributes, its records in the device
databases, the lines of the mount table for sources beneath it, and for these sources what the partition table counts
last and what the system answers. The number of the device matters only as that to which its record belongs. -/
structure AgreeOn (name : List Char) (left right : TabledHost) : Prop where
  link : left.link? (left.entry name) = right.link? (right.entry name)
  size : left.content? ((left.entry name).join (.ofString "size"))
    = right.content? ((right.entry name).join (.ofString "size"))
  type : left.content? ((left.hardware name).join (.ofString "type"))
    = right.content? ((right.hardware name).join (.ofString "type"))
  model : left.content? ((left.hardware name).join (.ofString "model"))
    = right.content? ((right.hardware name).join (.ofString "model"))
  vendor : left.content? ((left.hardware name).join (.ofString "vendor"))
    = right.content? ((right.hardware name).join (.ofString "vendor"))
  driver : left.link? ((left.hardware name).join (.ofString "driver"))
    = right.link? ((right.hardware name).join (.ofString "driver"))
  udevRecord : (Serial.recordPath? left.host.files left.locations (left.entry name)).bind
      (Serial.record? left.host.files)
    = (Serial.recordPath? right.host.files right.locations (right.entry name)).bind (Serial.record? right.host.files)
  legacyUdevRecord : Serial.record? left.host.files (Serial.legacyRecordPath left.locations name)
    = Serial.record? right.host.files (Serial.legacyRecordPath right.locations name)
  lines : MountTable.linesBeneath name left.mounts = MountTable.linesBeneath name right.mounts
  counts : ∀ leaf further, (deviceDirectory ++ leaf) :: further ∈ MountTable.linesBeneath name left.mounts →
    ∀ blocks, PartitionTable.LastCount left.partitions leaf blocks ↔
      PartitionTable.LastCount right.partitions leaf blocks
  answers : ∀ source field further, source :: field :: further ∈ MountTable.linesBeneath name left.mounts →
    left.freeSpace? (MountTable.decodeField field) = right.freeSpace? (MountTable.decodeField field)

variable {name : List Char} {left right : TabledHost}

theorem AgreeOn.symm (agree : AgreeOn name left right) : AgreeOn name right left where
  link := agree.link.symm
  size := agree.size.symm
  type := agree.type.symm
  model := agree.model.symm
  vendor := agree.vendor.symm
  driver := agree.driver.symm
  udevRecord := agree.udevRecord.symm
  legacyUdevRecord := agree.legacyUdevRecord.symm
  lines := agree.lines.symm
  counts := fun leaf further member blocks => (agree.counts leaf further (agree.lines ▸ member) blocks).symm
  answers := fun source field further member => (agree.answers source field further (agree.lines ▸ member)).symm

theorem AgreeOn.ofTableRows_eq (agree : AgreeOn name left right) (unit : UInt64) :
    MountedPartition.ofTableRows left.host left.tables.partitions unit name left.tables.mounts =
      MountedPartition.ofTableRows right.host right.tables.partitions unit name right.tables.mounts := by
  simp only [tables, Tables.mounts_ofTexts, Tables.partitions_ofTexts]
  -- The maps hold the same under each key: if the key lies beneath the device, so do all lines that mount it.
  refine SortedMap.ext_get? fun key => Option.ext fun partition => ?_
  rw [MountedPartition.get?_ofTableRows_ofText_eq_some_iff, MountedPartition.get?_ofTableRows_ofText_eq_some_iff]
  refine and_congr_right fun beneath => exists_congr fun field => ?_
  have sourceBeneath : deviceDirectory ++ name <+: deviceDirectory ++ key.toList :=
    (List.prefix_append_right_inj _).mpr beneath
  rw [MountTable.firstMount_iff_linesBeneath sourceBeneath, MountTable.firstMount_iff_linesBeneath sourceBeneath,
    agree.lines]
  refine and_congr_right fun first => ?_
  obtain ⟨_, member, further, rfl⟩ := first.exists_mem
  rw [← agree.lines] at member
  have count : (PartitionTable.ofText left.partitions).get? key = (PartitionTable.ofText right.partitions).get? key := by
    refine Option.ext fun blocks => ?_
    rw [PartitionTable.get?_ofText_eq_some_iff, PartitionTable.get?_ofText_eq_some_iff]
    exact agree.counts key.toList _ member blocks
  have answer := agree.answers _ field further member
  rw [MountedPartition.ofMount_congr count]
  rw [Path.ofString, String.toList_ofList]
  exact answer

theorem attributeText_congr {leftPath rightPath : Path} (same : left.content? leftPath = right.content? rightPath) :
    left.host.files.attributeText leftPath = right.host.files.attributeText rightPath := by
  rw [content?, content?] at same
  rw [FileTree.attributeText_eq_getD, FileTree.attributeText_eq_getD, same]

theorem linkName?_congr {leftPath rightPath : Path} (same : left.link? leftPath = right.link? rightPath) :
    left.host.files.linkName? leftPath = right.host.files.linkName? rightPath := by
  rw [link?, link?] at same
  rw [FileTree.linkName?_eq_bind, FileTree.linkName?_eq_bind, same]

theorem AgreeOn.exclusion?_eq_none_iff (agree : AgreeOn name left right) (target : Path) :
    BlockEntry.exclusion? left.host.files { name, path := left.entry name, target } = none ↔
      BlockEntry.exclusion? right.host.files { name, path := right.entry name, target } = none := by
  have type := attributeText_congr agree.type
  rw [BlockEntry.exclusion?_eq_none_iff, BlockEntry.exclusion?_eq_none_iff]
  simp only [BlockEntry.hardware, hardware] at type ⊢
  rw [type]

theorem AgreeOn.ofEntry_eq (agree : AgreeOn name left right) (unit : UInt64) (target : Path) :
    Device.ofEntry left.host left.locations left.tables unit { name, path := left.entry name, target } =
      Device.ofEntry right.host right.locations right.tables unit { name, path := right.entry name, target } := by
  have driver := linkName?_congr agree.driver
  have vendor := attributeText_congr agree.vendor
  have model := attributeText_congr agree.model
  have serial : Serial.find? left.host.files left.locations name (left.entry name) =
      Serial.find? right.host.files right.locations name (right.entry name) := by
    rw [Serial.find?, Serial.find?, Serial.firstRecord?, Serial.firstRecord?, agree.udevRecord, agree.legacyUdevRecord]
  have size : left.host.files.attributeCount ((left.entry name).join (.ofString "size")) =
      right.host.files.attributeCount ((right.entry name).join (.ofString "size")) := by
    rw [FileTree.attributeCount, FileTree.attributeCount, attributeText_congr agree.size]
  have partitions : Device.partitions? left.host left.tables unit name =
      Device.partitions? right.host right.tables unit name := by
    rw [Device.partitions?, Device.partitions?, agree.ofTableRows_eq]
  simp only [hardware] at driver vendor model
  simp only [Device.ofEntry, BlockEntry.hardware, driver, vendor, model, serial, size, partitions]

theorem AgreeOn.ofName?_of_left (agree : AgreeOn name left right) {unit : UInt64} {device : Device}
    (made : Device.ofName? left.host left.locations left.tables unit name = some device) :
    Device.ofName? right.host right.locations right.tables unit name = some device := by
  obtain ⟨_, found, accepted, rfl⟩ := Device.ofName?_eq_some_iff.mp made
  obtain ⟨target, read, rfl⟩ := BlockEntry.find?_eq_some_iff.mp found
  have readRight : right.host.files.readLink (right.entry name) = .ok target := by
    have link : right.link? (right.entry name) = some target := by
      rw [← agree.link, link?]
      exact congrArg Except.toOption read
    rw [link?] at link
    cases result : right.host.files.readLink (right.entry name) with
    | error cause =>
        rw [result] at link
        cases link
    | ok other =>
        rw [result] at link
        cases link
        rfl
  refine Device.ofName?_eq_some_iff.mpr ⟨_, BlockEntry.find?_eq_some_iff.mpr ⟨target, readRight, rfl⟩, ?_, ?_⟩
  · exact (agree.exclusion?_eq_none_iff target).mp accepted
  · exact (agree.ofEntry_eq unit target).symm

/-- The records of a registered name are what the name gives. -/
theorem mem_inventory_iff {source : TabledHost} {config : Config} {devices : List Device}
    (success : source.host.inventory source.locations config = .ok devices) (registers : source.Registers name)
    {device : Device} :
    device ∈ devices ∧ device.name = String.ofList name ↔
      Device.ofName? source.host source.locations source.tables config.effectiveUnit name = some device := by
  obtain ⟨names, mounts, partitions, registered, readMounts, readPartitions, rfl⟩ :=
    Host.inventory_eq_ok_iff.mp success
  cases readMounts.symm.trans source.mounts_read
  cases readPartitions.symm.trans source.partitions_read
  obtain ⟨_, registeredAgain, member⟩ := registers
  cases registered.symm.trans registeredAgain
  constructor
  · intro reported
    obtain ⟨isRecord, named⟩ := reported
    obtain ⟨other, _, made⟩ := List.mem_filterMap.mp isRecord
    obtain ⟨_, found, _, rfl⟩ := Device.ofName?_eq_some_iff.mp made
    obtain ⟨_, _, rfl⟩ := BlockEntry.find?_eq_some_iff.mp found
    cases String.ofList_injective named
    exact made
  · intro made
    refine ⟨List.mem_filterMap.mpr ⟨name, member, made⟩, ?_⟩
    obtain ⟨_, found, _, rfl⟩ := Device.ofName?_eq_some_iff.mp made
    obtain ⟨_, _, rfl⟩ := BlockEntry.find?_eq_some_iff.mp found
    rfl

/-- Hosts that agree on a device which both register report it alike or not at all. -/
theorem inventory_independent {left right : TabledHost} {name : List Char} (agree : AgreeOn name left right)
    {config : Config} {leftDevices rightDevices : List Device}
    (leftSuccess : left.host.inventory left.locations config = .ok leftDevices)
    (rightSuccess : right.host.inventory right.locations config = .ok rightDevices)
    (leftRegisters : left.Registers name) (rightRegisters : right.Registers name) :
    ((∃ device ∈ leftDevices, device.name = String.ofList name) ↔
      ∃ device ∈ rightDevices, device.name = String.ofList name) ∧
      ∀ leftDevice ∈ leftDevices, ∀ rightDevice ∈ rightDevices, leftDevice.name = String.ofList name →
        rightDevice.name = String.ofList name → leftDevice = rightDevice := by
  constructor
  · constructor
    · rintro ⟨device, reported⟩
      have made := (mem_inventory_iff leftSuccess leftRegisters).mp reported
      exact ⟨device, (mem_inventory_iff rightSuccess rightRegisters).mpr (agree.ofName?_of_left made)⟩
    · rintro ⟨device, reported⟩
      have made := (mem_inventory_iff rightSuccess rightRegisters).mp reported
      exact ⟨device, (mem_inventory_iff leftSuccess leftRegisters).mpr (agree.symm.ofName?_of_left made)⟩
  · intro leftDevice leftMember rightDevice rightMember leftNamed rightNamed
    have leftMade := (mem_inventory_iff leftSuccess leftRegisters).mp ⟨leftMember, leftNamed⟩
    have rightMade := (mem_inventory_iff rightSuccess rightRegisters).mp ⟨rightMember, rightNamed⟩
    exact Option.some.inj ((agree.ofName?_of_left leftMade).symm.trans rightMade)

/-- A disk that is mounted twice and counted twice, next to another. -/
def crowdedHost : TabledHost where
  host := .ofTables ["sda", "sdb"] "/dev/sdb1 /srv ext4\n/dev/sda1 /mnt ext4\n/dev/sda1 /opt ext4\n"
    "8 1 7 sda1\n8 17 7 sdb1\n8 1 1048576 sda1\n"
  locations := .live
  mounts := "/dev/sdb1 /srv ext4\n/dev/sda1 /mnt ext4\n/dev/sda1 /opt ext4\n".toList
  partitions := "8 1 7 sda1\n8 17 7 sdb1\n8 1 1048576 sda1\n".toList
  mounts_read := by decide +kernel
  partitions_read := by decide +kernel

/-- The disk alone, counted once. -/
def lonelyHost : TabledHost where
  host := .ofTables ["sda"] "/dev/sda1 /mnt ext4\nproc /proc proc\n/dev/sda1 /opt ext4\n" "8 1 1048576 sda1\n"
  locations := .live
  mounts := "/dev/sda1 /mnt ext4\nproc /proc proc\n/dev/sda1 /opt ext4\n".toList
  partitions := "8 1 1048576 sda1\n".toList
  mounts_read := by decide +kernel
  partitions_read := by decide +kernel

theorem agreeOn_crowded_lonely : AgreeOn "sda".toList crowdedHost lonelyHost where
  link := by decide +kernel
  size := by decide +kernel
  type := by decide +kernel
  model := by decide +kernel
  vendor := by decide +kernel
  driver := by decide +kernel
  udevRecord := by decide +kernel
  legacyUdevRecord := by decide +kernel
  lines := by decide +kernel
  counts := by
    intro leaf further member blocks
    have lines : MountTable.linesBeneath "sda".toList crowdedHost.mounts =
        [["/dev/sda1".toList, "/mnt".toList, "ext4".toList], ["/dev/sda1".toList, "/opt".toList, "ext4".toList]] := by
      decide +kernel
    have same : (PartitionTable.ofText crowdedHost.partitions).get? "sda1" =
        (PartitionTable.ofText lonelyHost.partitions).get? "sda1" := by decide +kernel
    have isLeaf : leaf = "sda1".toList := by
      simp only [lines, List.mem_cons, List.cons.injEq, List.not_mem_nil, or_false] at member
      rcases member with ⟨source, _⟩ | ⟨source, _⟩ <;> exact List.append_cancel_left source
    rw [isLeaf, ← PartitionTable.get?_ofText_eq_some_iff, same, PartitionTable.get?_ofText_eq_some_iff]
  answers := fun _ _ _ _ => rfl

def countedDisk : Device where
  name := "sda"
  partitions := some (.ofLast [("sda1", { mountPoint := some "/mnt", size := 1073 })])

def neighbourDisk : Device where
  name := "sdb"
  partitions := some (.ofLast [("sdb1", { mountPoint := some "/srv" })])

/-- The neighbour leaves no trace in the record of the disk. -/
theorem inventory_independent_neighbour :
    crowdedHost.host.inventory .live {} = .ok [countedDisk, neighbourDisk] ∧
      lonelyHost.host.inventory .live {} = .ok [countedDisk] ∧
      ∀ left ∈ [countedDisk, neighbourDisk], ∀ right ∈ [countedDisk], left.name = "sda" → right.name = "sda" →
        left = right := by
  have crowded : crowdedHost.host.inventory .live {} = .ok [countedDisk, neighbourDisk] := by decide +kernel
  have lonely : lonelyHost.host.inventory .live {} = .ok [countedDisk] := by decide +kernel
  have crowdedRegisters : crowdedHost.Registers "sda".toList :=
    ⟨["sda".toList, "sdb".toList], by decide +kernel, List.mem_cons_self⟩
  have lonelyRegisters : lonelyHost.Registers "sda".toList :=
    ⟨["sda".toList], by decide +kernel, List.mem_cons_self⟩
  exact ⟨crowded, lonely,
    (inventory_independent agreeOn_crowded_lonely crowded lonely crowdedRegisters lonelyRegisters).2⟩

end TabledHost

end BlockInventory
