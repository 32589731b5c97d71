import BlockInventory.SortedMap
import BlockInventory.Text.Blank
import BlockInventory.Text.Numeral

/-!
# Partition tables

A row of a partition table has four fields: two device numbers, a count of blocks, and a name. Lines that are
no such row, among them the heading, are passed over. Of several rows with one name the last counts.
-/

set_option autoImplicit false

namespace BlockInventory

abbrev PartitionTable := SortedMap UInt64

namespace PartitionTable

def ofLine? (line : List Char) : Option (String × UInt64) :=
  match Text.fields line with
  | [_, _, blocks, name] => (Text.Numeral.read? blocks).map fun count => (String.ofList name, count)
  | _ => none

/-- The table in a text. A carriage return before the end of a line is blank and so belongs to no field. -/
def ofText (text : List Char) : PartitionTable :=
  SortedMap.ofLast ((text.splitOn '\n').filterMap ofLine?)

end PartitionTable

end BlockInventory
