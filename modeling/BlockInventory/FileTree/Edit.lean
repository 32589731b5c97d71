import BlockInventory.FileTree.Lookup

/-!
# Building a file tree

A tree is built entry by entry. What a path names is taken away first; then the directories that lack on the way to
the entry are made, and then the entry. Links on the way are followed each time anew, in the tree as it is then. What
cannot be made is left out.
-/

set_option autoImplicit false

namespace BlockInventory

abbrev Entries := List (Name × Node)

namespace Entries

/-- Changes the entries of the directory that lies beneath these names. -/
def changeAt (change : Entries → Entries) : List Name → Entries → Entries
  | [], entries => change entries
  | name :: names, entries =>
    entries.map fun entry =>
      if entry.1 = name then
        match entry.2 with
        | .directory inner => (entry.1, .directory (changeAt change names inner))
        | _ => entry
      else entry

def remove (entries : Entries) (name : Name) : Entries :=
  entries.filter (·.1 ≠ name)

/-- The entries with a new last one, without an earlier one of its name. -/
def put (entries : Entries) (name : Name) (node : Node) : Entries :=
  entries.remove name ++ [(name, node)]

end Entries

namespace FileTree

/-- The tree without entries, whose working directory is its root. -/
def empty : FileTree := ⟨[], []⟩

def changeAt (tree : FileTree) (place : Place) (change : Entries → Entries) : FileTree :=
  { tree with root := Entries.changeAt change place.reverse tree.root }

/-- The tree with this node at a place in a directory that it has. -/
def enter (tree : FileTree) (place : Place) (node : Node) : FileTree :=
  match place with
  | [] => tree
  | name :: directory => tree.changeAt directory (·.put name node)

def leave (tree : FileTree) (place : Place) : FileTree :=
  match place with
  | [] => tree
  | name :: directory => tree.changeAt directory (·.remove name)

def isDirectory (tree : FileTree) (place : Place) : Bool :=
  match tree.node? place with
  | some (.directory _) => true
  | _ => false

/-- The place of the entry to which the last of these steps leads from the directory that the ones before lead to. The
entry need not be there, and a link there is not followed. Only a step down leads to an entry. -/
def entryAt? (tree : FileTree) (start : Place) (steps : List Step) : Option Place :=
  match steps.getLast?, tree.walk true mostLinks start steps.dropLast with
  | some (.down name), .ok directory =>
    if name.length ≤ longestName ∧ tree.isDirectory directory then some (name :: directory) else none
  | _, _ => none

/-- The place of the entry in which a path ends, with or without a slash behind it. -/
def entryOf? (tree : FileTree) (path : Path) : Option Place :=
  tree.entryAt? (tree.start path) (path.parts.map Path.stepOf)

/-- Takes away what a path names: a directory's entries first, and then the entry in which the path ends, if that is
still what the path names. So a directory remains, without entries, if the path leads to it through itself. A link
goes without its target. A path that leads nowhere changes nothing. -/
def remove (tree : FileTree) (path : Path) : FileTree :=
  match tree.place? false path with
  | .error _ => tree
  | .ok place =>
    let tree := tree.changeAt place fun _ => []
    if tree.entryOf? path = some place then tree.leave place else tree

/-- Makes the directory to which these steps lead, unless it is there. It cannot be made where another entry is. -/
def makeDirectory? (tree : FileTree) (start : Place) (steps : List Step) : Option FileTree :=
  match tree.walk true mostLinks start steps with
  | .ok place => if tree.isDirectory place then some tree else none
  | .error _ => do
    let place ← tree.entryAt? start steps
    if (tree.node? place).isSome then none else some (tree.enter place (.directory []))

/-- Makes the directories on the way that these steps take after the ones before, up to one that cannot be made. -/
def makeDirectories (tree : FileTree) (start : Place) (before : List Step) : List Step → FileTree
  | [] => tree
  | step :: rest =>
    match tree.makeDirectory? start (before ++ [step]) with
    | some tree => makeDirectories tree start (before ++ [step]) rest
    | none => tree

/-- The steps to the directory in which the entry of a path lies. -/
def stepsToEntry (path : Path) : List Step :=
  (path.parts.filter (· ≠ Path.here)).dropLast.map Path.stepOf

/-- No file can be where a path asks for a directory, and no link can have a target that names nothing in any tree. -/
def suits (path : Path) : Node → Bool
  | .directory _ => true
  | .file _ => !path.asksForDirectory
  | .link target => !path.asksForDirectory && (fault? target).isNone

/-- The place where a new file's bytes go if steps lead to it: of the entry to which they lead, or of that to which a
link there leads on. -/
def fileAt? (tree : FileTree) (links : Nat) (start : Place) (steps : List Step) : Option Place :=
  match tree.entryAt? start steps with
  | none => none
  | some place =>
    match links, tree.node? place with
    | 0, some (.link _) => none
    | links + 1, some (.link target) => fileAt? tree links (targetStart place.tail target) target.steps
    | _, _ => some place

/-- Makes a node where a path ends. What is there stays, but for the bytes of a file, which new ones replace. -/
def make (tree : FileTree) (path : Path) (node : Node) : FileTree :=
  let place? := match node with
    | .file _ => tree.fileAt? mostLinks (tree.start path) path.steps
    | _ => tree.entryOf? path
  match place?, place?.bind tree.node?, node with
  | some place, none, _ => tree.enter place node
  | some place, some (.file _), .file _ => tree.enter place node
  | _, _, _ => tree

/-- Puts a node where a path leads, in place of what the path names, and makes the directories that lack on the
way. -/
def put (tree : FileTree) (path : Path) (node : Node) : FileTree :=
  if (fault? path).isSome then tree
  else
    let tree := (tree.remove path).makeDirectories (tree.start path) [] (stepsToEntry path)
    if suits path node then tree.make path node else tree

end FileTree

end BlockInventory
