import BlockInventory.FileTree.Access
import BlockInventory.Size

/-!
# Hosts

What an inventory sees of a host: its file tree, and what the system answers when it is asked for the free space of
a mounted file system.
-/

set_option autoImplicit false

namespace BlockInventory

/-- The free space of a file system: how many fragments unprivileged users may fill, and the sizes of fragments and
blocks in bytes. Some file systems leave the size of fragments at zero. -/
structure FreeSpace where
  availableFragments : UInt64
  fragmentSize : UInt64
  blockSize : UInt64
  deriving DecidableEq, Repr

namespace FreeSpace

/-- The bytes in a unit of free space: a fragment, or a block where the size of fragments is not given. -/
def bytesPerFragment (space : FreeSpace) : UInt64 :=
  if space.fragmentSize = 0 then space.blockSize else space.fragmentSize

def mebibytes (space : FreeSpace) : UInt64 :=
  Size.saturatingMul space.availableFragments space.bytesPerFragment / Size.mebibyte

theorem toNat_mebibytes (space : FreeSpace) :
    space.mebibytes.toNat
      = min (space.availableFragments.toNat * space.bytesPerFragment.toNat) (UInt64.size - 1) / 1048576 := by
  rw [mebibytes, UInt64.toNat_div, Size.toNat_saturatingMul]
  rfl

end FreeSpace

/-- A host as an inventory sees it. -/
structure Host where
  files : FileTree
  /-- The free space of the file system at a mount point. -/
  freeSpace : Path → Except SystemError FreeSpace

namespace Host

/-- The free space at a mount point in mebibytes. -/
def availableMebibytes (host : Host) (mountPoint : Path) : Except AccessError UInt64 :=
  match mountPoint.bytes.findIdx? (· == 0) with
  | some position => .error (.mountPointHasNul position)
  | none =>
    match host.freeSpace mountPoint with
    | .ok space => .ok space.mebibytes
    | .error error => .error (.system error)

theorem availableMebibytes_eq_ok_iff {host : Host} {mountPoint : List Char} {size : UInt64} :
    host.availableMebibytes (.ofText mountPoint) = .ok size ↔
      '\x00' ∉ mountPoint ∧
        ∃ space, host.freeSpace (.ofText mountPoint) = .ok space ∧ space.mebibytes = size := by
  unfold availableMebibytes
  cases found : (Path.ofText mountPoint).bytes.findIdx? (· == 0) with
  | none =>
      have absent : '\x00' ∉ mountPoint := by
        rw [← Text.Utf8.zero_mem_encode_iff]
        intro member
        simpa using List.findIdx?_eq_none_iff.mp found 0 member
      cases answer : host.freeSpace (.ofText mountPoint) with
      | ok space => simp [absent]
      | error error => simp
  | some position =>
      have present : '\x00' ∈ mountPoint := by
        obtain ⟨bound, zero, _⟩ := List.findIdx?_eq_some_iff_getElem.mp found
        exact Text.Utf8.zero_mem_encode_iff.mp (beq_iff_eq.mp zero ▸ List.getElem_mem bound)
      simp [present]

end Host

end BlockInventory
