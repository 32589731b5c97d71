import BlockInventory.Text.Utf8

/-!
# Records of the device database

A record is a sequence of lines `key=value`. Its bytes need not be text: only the value that is looked for is
decoded.
-/

set_option autoImplicit false

namespace BlockInventory.UdevRecord

def lineFeed : UInt8 := 0x0A

/-- The byte that may stand before the end of a line. -/
def carriageReturn : UInt8 := 0x0D

def equalsSign : UInt8 := 0x3D

def serialKey : List UInt8 := Text.Utf8.encode "E:ID_SERIAL_SHORT".toList

/-- The lines of a record, each without one carriage return at its end. -/
def lines (record : List UInt8) : List (List UInt8) :=
  (record.splitOn lineFeed).map fun line =>
    if line.getLast? = some carriageReturn then line.dropLast else line

/-- The serial number on a line: it has exactly two parts, and the first is the key. -/
def lineSerial? (line : List UInt8) : Option (List UInt8) :=
  match line.splitOn equalsSign with
  | [key, value] => if key = serialKey then some value else none
  | _ => none

/-- The first serial number of a record, even if it is empty. -/
def serial? (record : List UInt8) : Option (List Char) :=
  ((lines record).findSome? lineSerial?).map Text.Utf8.decodeLossy

end BlockInventory.UdevRecord
