import BlockInventory.FileTree.Access
import BlockInventory.Text.Blank
import BlockInventory.Text.Numeral

/-!
# Attributes

Small files and links that describe a device. Most are optional, so one that cannot be read counts as empty.
-/

set_option autoImplicit false

namespace BlockInventory.FileTree

/-- The text of an attribute without its blank ends, empty if it cannot be read. -/
def attributeText (tree : FileTree) (path : Path) : List Char :=
  match tree.readBytes path with
  | .ok content => Text.trim (Text.Utf8.decodeLossy content)
  | .error _ => []

/-- The number in an attribute, zero if there is none. -/
def attributeCount (tree : FileTree) (path : Path) : UInt64 :=
  (Text.Numeral.read? (tree.attributeText path)).getD 0

/-- The name at the end of a link's target. -/
def linkName? (tree : FileTree) (path : Path) : Option (List Char) :=
  match tree.readLink path with
  | .ok target => target.fileName?.map Text.Utf8.decodeLossy
  | .error _ => none

end BlockInventory.FileTree
