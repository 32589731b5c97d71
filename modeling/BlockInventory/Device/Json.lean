import BlockInventory.Device
import BlockInventory.Device.Fields
import BlockInventory.Json.Printer
import BlockInventory.Json.Reader

/-!
# Devices as JSON

The JSON form of the records. Fields are written in their order; a field without a value and a size of zero are
left out, and reading restores exactly what was left out.
-/

set_option autoImplicit false

namespace BlockInventory

/-- A member for a text, left out if there is none. -/
def textMember (name : String) : Option String → List (String × Json.Value)
  | some text => [(name, .ofString text)]
  | none => []

/-- A member for a size, left out if it is zero. -/
def sizeMember (name : String) (size : UInt64) : List (String × Json.Value) :=
  if size = 0 then [] else [(name, .ofWord size)]

namespace MountedPartition

def fieldNames : List String := ["mountPoint", "size", "availableSize"]

def toJson (partition : MountedPartition) : Json.Value :=
  .ofMembers (textMember "mountPoint" partition.mountPoint ++ sizeMember "size" partition.size
    ++ sizeMember "availableSize" partition.availableSize)

def ofJson? (value : Json.Value) : Option MountedPartition := do
  let given ← GivenFields.ofValue? fieldNames value
  let mountPoint ← given.optionalText? "mountPoint"
  let size ← given.wordOrZero? "size"
  let availableSize ← given.wordOrZero? "availableSize"
  some { mountPoint, size, availableSize }

def ofJsonText? (text : List Char) : Option MountedPartition :=
  (Json.Value.ofText? text).bind ofJson?

end MountedPartition

namespace Device

def fieldNames : List String :=
  ["name", "driver", "vendor", "model", "serial", "size", "partitions"]

/-- A member for the partitions, left out if there are none. -/
def partitionsMember : Option (SortedMap MountedPartition) → List (String × Json.Value)
  | some partitions =>
    [("partitions", .ofMembers (partitions.entries.map fun (name, partition) => (name, partition.toJson)))]
  | none => []

def toJson (device : Device) : Json.Value :=
  .ofMembers (("name", .ofString device.name) :: textMember "driver" device.driver
    ++ textMember "vendor" device.vendor ++ textMember "model" device.model
    ++ textMember "serial" device.serial ++ sizeMember "size" device.size
    ++ partitionsMember device.partitions)

def ofJson? (value : Json.Value) : Option Device := do
  let given ← GivenFields.ofValue? fieldNames value
  let name ← given.required? "name" Json.Value.text?
  let driver ← given.optionalText? "driver"
  let vendor ← given.optionalText? "vendor"
  let model ← given.optionalText? "model"
  let serial ← given.optionalText? "serial"
  let size ← given.wordOrZero? "size"
  let partitions ← given.withDefault? "partitions"
    (Json.Value.nullOr? (Json.Value.map? MountedPartition.ofJson?)) none
  some { name, driver, vendor, model, serial, size, partitions }

def ofJsonText? (text : List Char) : Option Device :=
  (Json.Value.ofText? text).bind ofJson?

def listToJson (devices : List Device) : Json.Value :=
  .array (devices.map toJson)

def listOfJson? : Json.Value → Option (List Device)
  | .array items => items.mapM ofJson?
  | _ => none

end Device

end BlockInventory
