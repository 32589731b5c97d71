import BlockInventory.MountTable.Decoding
import BlockInventory.SortedMap
import BlockInventory.Text.Blank
import BlockInventory.Text.Utf8

/-!
# Mount tables

A line of a mount table names the source of a mounted file system, then the mount point, then more. Only
sources beneath `/dev/` are kept: the others are no devices. Of several lines with one source the first counts.
-/

set_option autoImplicit false

namespace BlockInventory

/-- Where the sources that are devices lie. -/
def deviceDirectory : List Char := ['/', 'd', 'e', 'v', '/']

theorem isBlank_deviceDirectory : ∀ character ∈ deviceDirectory, Text.isBlank character = false := by
  simp [deviceDirectory, Text.isBlank, Text.blankRanges]

abbrev MountTable := SortedMap String

namespace MountTable

def decodeField (field : List Char) : List Char :=
  Text.Utf8.decodeLossy (OctalField.unescape field)

/-- The source and the mount point of a line, if it mounts a device. -/
def ofLine? (line : List Char) : Option (String × String) :=
  match Text.fields line with
  | source :: mountPoint :: _ =>
    if deviceDirectory.isPrefixOf source then
      some (String.ofList source, String.ofList (decodeField mountPoint))
    else none
  | _ => none

/-- The table in a text. A carriage return before the end of a line is blank and so belongs to no field. -/
def ofText (text : List Char) : MountTable :=
  SortedMap.ofFirst ((text.splitOn '\n').filterMap ofLine?)

theorem decodeField_eq_decode (field : List Char) :
    decodeField field = Text.Utf8.decodeLossy (OctalField.decode (Text.Utf8.encode field)) := by
  rw [decodeField, OctalField.unescape_eq]

theorem decodeField_ne_nil {field : List Char} (nonempty : field ≠ []) : decodeField field ≠ [] := by
  rw [decodeField_eq_decode]
  exact Text.Utf8.decodeLossy_ne_nil (OctalField.decode_ne_nil (Text.Utf8.encode_ne_nil nonempty))

end MountTable

end BlockInventory
