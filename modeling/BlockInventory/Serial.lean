import BlockInventory.Attribute
import BlockInventory.Locations
import BlockInventory.UdevRecord

/-!
# Serial numbers

The serial number of a device stands in its record of the device database. The record is looked for by device
number, then in the older database by name. The first record that can be opened counts, whether or not it holds a
serial number; a directory opens as a record without lines.
-/

set_option autoImplicit false

namespace BlockInventory.Serial

/-- The record for a device number, unless the device has none. -/
def recordPath? (files : FileTree) (locations : Locations) (device : Path) : Option Path :=
  let number := files.attributeText (device.join (.ofString "dev"))
  if number = [] then none else some (locations.udevRecords.join (.ofText ('b' :: number)))

/-- The record of a name in the older database. -/
def legacyRecordPath (locations : Locations) (name : List Char) : Path :=
  locations.legacyUdevRecords.join (.ofText ("block:".toList ++ name))

/-- The content of a record, if it can be opened. -/
def record? (files : FileTree) (path : Path) : Option (List UInt8) :=
  match files.open? path with
  | .ok (.file content) => some content
  | .ok (.directory _) => some []
  | .error _ => none

/-- The content of the first record of a device that can be opened. -/
def firstRecord? (files : FileTree) (locations : Locations) (name : List Char) (device : Path) :
    Option (List UInt8) :=
  ((recordPath? files locations device).bind (record? files)).or
    (record? files (legacyRecordPath locations name))

/-- The serial number of the device with this name whose entry lies at `device`. -/
def find? (files : FileTree) (locations : Locations) (name : List Char) (device : Path) :
    Option (List Char) :=
  (firstRecord? files locations name device).bind UdevRecord.serial?

end BlockInventory.Serial
