import BlockInventory.Device

/-!
# Listings

Devices as a table for people: a heading, then a line for each device, followed by a line for each of its partitions.
A column is padded with spaces to its width in characters; what is longer is not cut.
-/

set_option autoImplicit false

namespace BlockInventory.Listing

/-- The text at the left of a column. -/
def left (width : Nat) (text : List Char) : List Char :=
  text ++ List.replicate (width - text.length) ' '

/-- The text at the right of a column. -/
def right (width : Nat) (text : List Char) : List Char :=
  List.replicate (width - text.length) ' ' ++ text

/-- A line of the table of devices. -/
def line (name driver vendor model serial size partitions : List Char) : List Char :=
  left 12 name ++ ' ' :: left 10 driver ++ ' ' :: left 10 vendor ++ ' ' :: left 24 model
    ++ ' ' :: left 20 serial ++ ' ' :: right 10 size ++ ' ' :: right 6 partitions ++ ['\n']

def heading : List Char :=
  line "NAME".toList "DRIVER".toList "VENDOR".toList "MODEL".toList "SERIAL".toList "SIZE".toList
    "PARTS".toList

/-- A text, or a hyphen where there is none. -/
def orHyphen (text : Option String) : List Char :=
  (text.getD "-").toList

def number (value : Nat) : List Char :=
  Nat.toDigits 10 value

def deviceLine (device : Device) : List Char :=
  line device.name.toList (orHyphen device.driver) (orHyphen device.vendor) (orHyphen device.model)
    (orHyphen device.serial) (number device.size.toNat) (number device.partitionCount)

def partitionLine (name : String) (partition : MountedPartition) : List Char :=
  ' ' :: ' ' :: left 10 name.toList ++ ' ' :: left 40 (orHyphen partition.mountPoint)
    ++ " size=".toList ++ number partition.size.toNat
    ++ " available=".toList ++ number partition.availableSize.toNat ++ ['\n']

def deviceLines (device : Device) : List Char :=
  deviceLine device
    ++ device.partitionEntries.flatMap fun (name, partition) => partitionLine name partition

def ofDevices (devices : List Device) : List Char :=
  heading ++ devices.flatMap deviceLines

end BlockInventory.Listing
