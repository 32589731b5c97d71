import BlockInventory.FileTree.Path

/-!
# File trees

What a host keeps as files: files with their bytes, symbolic links with their targets, and directories with their
entries in the order in which they are listed. A place is where a directory or another node lies: the names on the
way to it from the root, the nearest one first.
-/

set_option autoImplicit false

namespace BlockInventory

inductive Node where
  | file (content : List UInt8)
  | link (target : Path)
  | directory (entries : List (Name × Node))

/-- The names from the root to a node, the node's own name first. -/
abbrev Place := List Name

/-- A file tree, as the entries of its root, with the directory in which relative paths begin. -/
structure FileTree where
  root : List (Name × Node)
  workingDirectory : Place

namespace Node

/-- The node that is reached by going down through entries with these names. -/
def descend? : Node → List Name → Option Node
  | node, [] => some node
  | .directory entries, name :: names => (entries.lookup name).bind fun node => node.descend? names
  | _, _ :: _ => none

end Node

namespace FileTree

def node? (tree : FileTree) (place : Place) : Option Node :=
  (Node.directory tree.root).descend? place.reverse

end FileTree

end BlockInventory
