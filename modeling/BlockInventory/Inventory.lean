import BlockInventory.Config
import BlockInventory.Device
import BlockInventory.Host
import BlockInventory.MountTable
import BlockInventory.PartitionTable
import BlockInventory.Registry
import BlockInventory.Serial

/-!
# Inventories

One record for each reported block device of a host, in the order of the registry. The registry, the mount table and
the partition table have to be readable; whatever else cannot be read only leaves a field without a value.
-/

set_option autoImplicit false

namespace BlockInventory

/-- Why a host has no inventory: one of the sources that every device needs cannot be read. -/
inductive InventoryError where
  | registry (path : Path) (cause : AccessError)
  | mountTable (path : Path) (cause : AccessError)
  | partitionTable (path : Path) (cause : AccessError)
  deriving DecidableEq, Repr

namespace InventoryError

def cause : InventoryError → AccessError
  | .registry _ cause => cause
  | .mountTable _ cause => cause
  | .partitionTable _ cause => cause

def message : InventoryError → String
  | .registry path cause => s!"cannot list block registry {path.display}: {cause.message}"
  | .mountTable path cause => s!"cannot read mount table {path.display}: {cause.message}"
  | .partitionTable path cause => s!"cannot read partition table {path.display}: {cause.message}"

end InventoryError

/-- The tables of a host that all its devices share. -/
structure Tables where
  /-- The mounted devices, each source once, in the order in which they are visited. -/
  mounts : List (String × String)
  partitions : PartitionTable

namespace Tables

/-- Reads the mount table, then the partition table. -/
def read (files : FileTree) (locations : Locations) : Except InventoryError Tables := do
  let mounts ← (files.readText locations.mountTable).mapError (.mountTable locations.mountTable)
  let partitions ← (files.readText locations.partitionTable).mapError
    (.partitionTable locations.partitionTable)
  .ok { mounts := (MountTable.ofText mounts).entries, partitions := .ofText partitions }

end Tables

def nonEmpty? (text : List Char) : Option (List Char) :=
  if text = [] then none else some text

namespace MountedPartition

/-- The record of the partition `name` that is mounted at `mountPoint`. Its size is zero if the partition table does
not know it, and its free space is zero if the host does not tell it. -/
def ofMount (host : Host) (partitions : PartitionTable) (unit : UInt64) (name mountPoint : String) :
    MountedPartition where
  mountPoint := if mountPoint = "" then none else some mountPoint
  size := match partitions.get? name with
    | some blocks => Size.ofBlocks blocks unit
    | none => 0
  availableSize := match host.availableMebibytes (.ofString mountPoint) with
    | .ok size => size
    | .error _ => 0

/-- The partition of a device that a row of the mount table mounts, by name: the source begins with the path of
the device. -/
def ofTableRow? (host : Host) (partitions : PartitionTable) (unit : UInt64) (device : List Char)
    (row : String × String) : Option (String × MountedPartition) :=
  let source := row.1.toList
  if (deviceDirectory ++ device).isPrefixOf source then
    let name := String.ofList (source.drop deviceDirectory.length)
    some (name, ofMount host partitions unit name row.2)
  else none

def ofTableRows (host : Host) (partitions : PartitionTable) (unit : UInt64) (device : List Char)
    (rows : List (String × String)) : SortedMap MountedPartition :=
  .ofLast (rows.filterMap (ofTableRow? host partitions unit device))

end MountedPartition

namespace Device

/-- How the vendor of a device begins that has only a number. -/
def numberedVendorPrefix : List Char := ['0', 'x']

/-- The vendor of a device, unless it is empty or a mere number. -/
def vendor? (text : List Char) : Option (List Char) :=
  if numberedVendorPrefix.isPrefixOf text then none else nonEmpty? text

def partitions? (host : Host) (tables : Tables) (unit : UInt64) (device : List Char) :
    Option (SortedMap MountedPartition) :=
  let partitions := MountedPartition.ofTableRows host tables.partitions unit device tables.mounts
  if partitions.isEmpty then none else some partitions

def ofEntry (host : Host) (locations : Locations) (tables : Tables) (unit : UInt64) (entry : BlockEntry) :
    Device where
  name := String.ofList entry.name
  driver := (host.files.linkName? (entry.hardware.join (.ofString "driver"))).map String.ofList
  vendor := (vendor? (host.files.attributeText (entry.hardware.join (.ofString "vendor")))).map String.ofList
  model := (nonEmpty? (host.files.attributeText (entry.hardware.join (.ofString "model")))).map String.ofList
  serial := ((Serial.find? host.files locations entry.name entry.path).bind nonEmpty?).map String.ofList
  size := Size.ofSectors (host.files.attributeCount (entry.path.join (.ofString "size"))) unit
  partitions := partitions? host tables unit entry.name

/-- The record of the device that the registry lists under a name, unless the entry is no link or not reported. -/
def ofName? (host : Host) (locations : Locations) (tables : Tables) (unit : UInt64) (name : List Char) :
    Option Device := do
  let entry ← BlockEntry.find? host.files locations.registry name
  match entry.exclusion? host.files with
  | none => some (ofEntry host locations tables unit entry)
  | some _ => none

end Device

namespace Host

/-- The records of the devices that the registry lists under these names. -/
def devices (host : Host) (locations : Locations) (tables : Tables) (unit : UInt64)
    (names : List (List Char)) : List Device :=
  names.filterMap (Device.ofName? host locations tables unit)

def inventory (host : Host) (locations : Locations) (config : Config) :
    Except InventoryError (List Device) := do
  let names ← (registeredNames host.files locations.registry).mapError (.registry locations.registry)
  let tables ← Tables.read host.files locations
  .ok (host.devices locations tables config.effectiveUnit names)

/-- The devices of a host, none if a source that every device needs cannot be read. -/
def inventoryOrEmpty (host : Host) (locations : Locations) (config : Config) : List Device :=
  match host.inventory locations config with
  | .ok devices => devices
  | .error _ => []

end Host

end BlockInventory
