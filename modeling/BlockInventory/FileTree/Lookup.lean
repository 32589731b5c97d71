import BlockInventory.FileTree.Failure
import BlockInventory.FileTree.Node

/-!
# Finding what a path names

A path is followed step by step from the root or from the working directory. Every step needs a directory to be
taken in; a link on the way is replaced by the steps of its target. At most forty links are followed, so that links
that lead to each other are a failure.
-/

set_option autoImplicit false

namespace BlockInventory.FileTree

def longestName : Nat := 255

def longestPath : Nat := 4095

/-- How many links are followed on the way along one path. -/
def mostLinks : Nat := 40

/-- Where the target of a link begins that lies in the directory at `place`. -/
def targetStart (place : Place) (target : Path) : Place :=
  if target.isAbsolute then [] else place

/-- Takes steps from a place. Where a link has to be followed, `follow` goes on from it; a link at the end is
followed only if `followLast` says so. -/
def advance (tree : FileTree) (followLast : Bool) (follow : Place → List Step → Except SystemError Place) :
    Place → List Step → Except SystemError Place
  | place, [] => .ok place
  | place, step :: rest =>
    match tree.node? place with
    | none => .error .noSuchEntry
    | some (.directory entries) =>
      match step with
      | .stay => advance tree followLast follow place rest
      | .parent => advance tree followLast follow place.tail rest
      | .down name =>
        if longestName < name.length then .error .nameTooLong
        else match entries.lookup name with
          | none => .error .noSuchEntry
          | some (.link target) =>
            if rest.isEmpty && !followLast then .ok (name :: place)
            else follow (targetStart place target) (target.steps ++ rest)
          | some _ => advance tree followLast follow (name :: place) rest
    | some _ => .error .notDirectory

/-- Takes steps from a place and follows at most `links` links. -/
def walk (tree : FileTree) (followLast : Bool) :
    (links : Nat) → Place → List Step → Except SystemError Place
  | 0 => advance tree followLast fun _ _ => .error .tooManyLinks
  | links + 1 => advance tree followLast (walk tree followLast links)

def start (tree : FileTree) (path : Path) : Place :=
  if path.isAbsolute then [] else tree.workingDirectory

/-- Why a path names nothing in any tree, if that is so. -/
def fault? (path : Path) : Option AccessError :=
  if path.bytes.contains 0 then some .pathHasNul
  else if path.bytes.isEmpty then some (.system .noSuchEntry)
  else if longestPath < path.bytes.length then some (.system .nameTooLong)
  else none

/-- The place that a path names. A link at its end is followed only if `followLast` says so. -/
def place? (tree : FileTree) (followLast : Bool) (path : Path) : Except AccessError Place :=
  match fault? path with
  | some error => .error error
  | none => (tree.walk followLast mostLinks (tree.start path) path.steps).mapError .system

end BlockInventory.FileTree
