import BlockInventory.FileTree.Lookup

/-!
# Reading a file tree

The ways to look at a file tree: read a file's bytes or its text, list a directory, read a link. A directory can be
opened like a file, but has no bytes to read.
-/

set_option autoImplicit false

namespace BlockInventory

/-- What a path leads to when it is opened. -/
inductive Opened where
  | file (content : List UInt8)
  | directory (entries : List (Name × Node))

namespace FileTree

/-- Opens what a path names, through all links. -/
def open? (tree : FileTree) (path : Path) : Except AccessError Opened := do
  let place ← tree.place? true path
  match tree.node? place with
  | some (.file content) => .ok (.file content)
  | some (.directory entries) => .ok (.directory entries)
  | some (.link _) => .error (.system .tooManyLinks)
  | none => .error (.system .noSuchEntry)

def readBytes (tree : FileTree) (path : Path) : Except AccessError (List UInt8) := do
  match ← tree.open? path with
  | .file content => .ok content
  | .directory _ => .error (.system .isDirectory)

/-- The text of a file whose bytes are UTF-8. -/
def readText (tree : FileTree) (path : Path) : Except AccessError (List Char) := do
  match Text.Utf8.decode? (← tree.readBytes path) with
  | some text => .ok text
  | none => .error .notText

/-- The names of a directory's entries in the order of their listing. -/
def list (tree : FileTree) (path : Path) : Except AccessError (List Name) := do
  match ← tree.open? path with
  | .directory entries => .ok (entries.map (·.1))
  | .file _ => .error (.system .notDirectory)

def readLink (tree : FileTree) (path : Path) : Except AccessError Path := do
  let place ← tree.place? false path
  match tree.node? place with
  | some (.link target) => .ok target
  | some _ => .error (.system .notLink)
  | none => .error (.system .noSuchEntry)

end FileTree

end BlockInventory
