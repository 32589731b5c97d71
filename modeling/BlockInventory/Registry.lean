import BlockInventory.Attribute

/-!
# The registry of block devices

The registry is a directory with a link for each block device; the target tells where the device hangs. Virtual
devices, floppy drives and optical drives are not reported. Removable disks are: a host may have booted from one.
-/

set_option autoImplicit false

namespace BlockInventory

structure BlockEntry where
  name : List Char
  /-- Where the entry lies in the registry. -/
  path : Path
  /-- The target of the entry's link as it is written there. -/
  target : Path

/-- Why a device is not reported. -/
inductive Exclusion where
  | virtual
  | floppy
  | optical
  deriving DecidableEq, Repr

namespace BlockEntry

def virtualPrefix : List Char := "../devices/virtual/".toList

def floppyPrefix : List Char := "../devices/platform/floppy".toList

def opticalType : List Char := ['5']

def pathOf (registry : Path) (name : List Char) : Path :=
  registry.join (.ofText name)

/-- The entry of a name, if it is a link. -/
def find? (files : FileTree) (registry : Path) (name : List Char) : Option BlockEntry :=
  let path := pathOf registry name
  match files.readLink path with
  | .ok target => some { name, path, target }
  | .error _ => none

/-- The directory of the hardware behind an entry. -/
def hardware (entry : BlockEntry) : Path :=
  entry.path.join (.ofString "device")

/-- Why the entry is not reported, if it is not. -/
def exclusion? (files : FileTree) (entry : BlockEntry) : Option Exclusion :=
  let target := Text.Utf8.decodeLossy entry.target.bytes
  if virtualPrefix.isPrefixOf target then some .virtual
  else if floppyPrefix.isPrefixOf target then some .floppy
  else if files.attributeText (entry.hardware.join (.ofString "type")) = opticalType then some .optical
  else none

end BlockEntry

/-- The names in the registry in the order of their listing. -/
def registeredNames (files : FileTree) (registry : Path) : Except AccessError (List (List Char)) :=
  (files.list registry).map fun names => names.map Text.Utf8.decodeLossy

end BlockInventory
