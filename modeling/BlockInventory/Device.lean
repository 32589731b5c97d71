import BlockInventory.SortedMap

/-!
# Devices

The records of an inventory: a block device with its identity, its size and its mounted partitions. Sizes are in
the unit of the inventory; free space is in mebibytes.
-/

set_option autoImplicit false

namespace BlockInventory

structure MountedPartition where
  mountPoint : Option String := none
  size : UInt64 := 0
  /-- The space that unprivileged users may fill, zero when it is unknown. -/
  availableSize : UInt64 := 0
  deriving DecidableEq

structure Device where
  /-- The name in the registry. -/
  name : String
  driver : Option String := none
  vendor : Option String := none
  model : Option String := none
  serial : Option String := none
  size : UInt64 := 0
  partitions : Option (SortedMap MountedPartition) := none
  deriving DecidableEq

namespace Device

/-- The mounted partitions in the order of their names. -/
def partitionEntries (device : Device) : List (String × MountedPartition) :=
  match device.partitions with
  | some partitions => partitions.entries
  | none => []

def partitionCount (device : Device) : Nat :=
  device.partitionEntries.length

end Device

end BlockInventory
