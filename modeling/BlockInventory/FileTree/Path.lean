import BlockInventory.Text.Utf8

/-!
# Paths

A path is a sequence of bytes. Slashes cut it into steps: stay in a directory, go to the directory above, or go
down to an entry with a given name.
-/

set_option autoImplicit false

namespace BlockInventory

abbrev Name := List UInt8

structure Path where
  bytes : List UInt8
  deriving DecidableEq, Repr

/-- What one part of a path asks for. -/
inductive Step where
  | stay
  | parent
  | down (name : Name)
  deriving DecidableEq, Repr

namespace Path

def slash : UInt8 := 0x2F

/-- The name that stands for the directory itself. -/
def here : Name := [0x2E]

/-- The name that stands for the directory above. -/
def above : Name := [0x2E, 0x2E]

def ofText (text : List Char) : Path := ⟨Text.Utf8.encode text⟩

def ofString (text : String) : Path := ofText text.toList

/-- The path as text, for messages. -/
def display (path : Path) : String := String.ofList (Text.Utf8.decodeLossy path.bytes)

theorem display_ofString (text : String) : (ofString text).display = text := by
  rw [display, ofString, ofText, Text.Utf8.decodeLossy_encode, String.ofList_toList]

def isAbsolute (path : Path) : Bool := path.bytes.head? == some slash

/-- The second path as seen from the first: an absolute path stands for itself, any other is put behind the
first with a slash between them unless the first is empty or ends in one. -/
def join (base path : Path) : Path :=
  if path.isAbsolute then path
  else if base.bytes = [] ∨ base.bytes.getLast? = some slash then ⟨base.bytes ++ path.bytes⟩
  else ⟨base.bytes ++ slash :: path.bytes⟩

/-- The parts between the slashes that are not empty. -/
def parts (path : Path) : List Name :=
  (path.bytes.splitOn slash).filter (!·.isEmpty)

def stepOf (part : Name) : Step :=
  if part = here then .stay
  else if part = above then .parent
  else .down part

/-- A slash at the end asks that what stands before it is a directory. -/
def asksForDirectory (path : Path) : Bool :=
  path.bytes.getLast? == some slash

def steps (path : Path) : List Step :=
  path.parts.map stepOf ++ if path.asksForDirectory then [.stay] else []

/-- The name at the end of a path: of its last part that is not `.`, unless that is `..`. -/
def fileName? (path : Path) : Option Name :=
  match (path.parts.filter (· ≠ here)).getLast? with
  | some name => if name = above then none else some name
  | none => none

end Path

end BlockInventory
