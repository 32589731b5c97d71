import BlockInventory.FileTree.Path

/-!
# Locations

Where a host keeps what an inventory reads. The locations may lie beneath any directory, so that a captured host
can be read like the live one. Sources in a mount table are text of the host and are not moved.
-/

set_option autoImplicit false

namespace BlockInventory

structure Locations where
  /-- The directory with one link for each block device. -/
  registry : Path
  mountTable : Path
  partitionTable : Path
  /-- The directory of the device database: records are named for device numbers. -/
  udevRecords : Path
  /-- The directory of the older device database: records are named for devices. -/
  legacyUdevRecords : Path
  deriving DecidableEq, Repr

namespace Locations

/-- The locations of a host whose root is the given directory. -/
def under (root : Path) : Locations where
  registry := root.join (.ofString "sys/block")
  mountTable := root.join (.ofString "proc/mounts")
  partitionTable := root.join (.ofString "proc/partitions")
  udevRecords := root.join (.ofString "run/udev/data")
  legacyUdevRecords := root.join (.ofString "dev/.udev/db")

def live : Locations := under (.ofString "/")

end Locations

end BlockInventory
