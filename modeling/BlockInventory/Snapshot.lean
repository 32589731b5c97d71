import BlockInventory.Device.Fields
import BlockInventory.FileTree.Edit
import BlockInventory.Host
import BlockInventory.Json.Reader

/-!
# Snapshots

A host as a JSON text, for the command that reads hosts from elsewhere. Its members are `workingDirectory`, a path;
`entries`, the list of the tree's entries in the order in which they are made; and `freeSpace`, what the system answers
by mount point. An entry has a `path` and either the `text` or the hexadecimal `bytes` of a file, the target of a
`link`, or nothing more for a directory. An answer is an `error` number, or the numbers of a file system.
-/

set_option autoImplicit false

namespace BlockInventory.Snapshot

def member? (value : Json.Value) (key : String) : Option Json.Value :=
  match value with
  | .object members => members.lookup (some key)
  | _ => none

def text? (value : Json.Value) (key : String) : Option String :=
  (member? value key).bind Json.Value.text?

def word? (value : Json.Value) (key : String) : Option UInt64 :=
  (member? value key).bind Json.Value.word?

/-- The bytes that pairs of hexadecimal digits write. -/
def bytesOfHex? : List Char → Option (List UInt8)
  | [] => some []
  | [_] => none
  | high :: low :: rest => do
    let high ← Text.hexDigit? high
    let low ← Text.hexDigit? low
    let bytes ← bytesOfHex? rest
    some (UInt8.ofNat (high * 16 + low) :: bytes)

def node? (entry : Json.Value) : Option Node :=
  match text? entry "link", text? entry "text", text? entry "bytes" with
  | some target, _, _ => some (.link (.ofString target))
  | none, some text, _ => some (.file (Text.Utf8.encode text.toList))
  | none, none, some digits => (bytesOfHex? digits.toList).map .file
  | none, none, none => some (.directory [])

def addEntry? (tree : FileTree) (entry : Json.Value) : Option FileTree := do
  let path ← text? entry "path"
  let node ← node? entry
  some (tree.put (.ofString path) node)

/-- What the system answers for a mount point. -/
def answer? (value : Json.Value) : Option (Except SystemError FreeSpace) :=
  match word? value "error" with
  | some number => some (.error ⟨number.toNat⟩)
  | none => do
    let availableFragments ← word? value "availableFragments"
    let fragmentSize ← word? value "fragmentSize"
    let blockSize ← word? value "blockSize"
    some (.ok { availableFragments, fragmentSize, blockSize })

/-- The free space that a list of answers tells; other mount points are unknown. -/
def freeSpaceOf (answers : List (Path × Except SystemError FreeSpace)) (mountPoint : Path) :
    Except SystemError FreeSpace :=
  (answers.lookup mountPoint).getD (.error .noSuchEntry)

/-- The names that lead down a path. -/
def placeOf (path : String) : Place :=
  (Path.ofString path).parts.reverse

def hostOf? (value : Json.Value) : Option Host := do
  let entries ← match member? value "entries" with
    | some (.array entries) => some entries
    | _ => none
  let tree ← entries.foldlM addEntry? .empty
  let answers ← match member? value "freeSpace" with
    | some (.object members) =>
      members.mapM fun (key, value) => do some (Path.ofString (← key), ← answer? value)
    | none => some []
    | _ => none
  let workingDirectory := placeOf ((text? value "workingDirectory").getD "/")
  some { files := { tree with workingDirectory }, freeSpace := freeSpaceOf answers }

def ofText? (text : String) : Option Host :=
  (Json.Value.ofText? text.toList).bind hostOf?

end BlockInventory.Snapshot
