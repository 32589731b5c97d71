import BlockInventory.Proofs.Inventory.Records
import BlockInventory.Proofs.Text.Ascii
import Mathlib.Data.Bool.AllAny

/-!
# Which devices an inventory reports

The names of the records are those of the registered entries that are links, whose targets begin neither like those of
virtual devices nor like those of floppy drives, and behind which no optical drive is. Only the bytes of the target and
one attribute decide, so whatever else cannot be read takes no device away.
-/

set_option autoImplicit false

namespace BlockInventory

theorem registeredNames_eq_ok_iff {files : FileTree} {registry : Path} {names : List (List Char)} :
    registeredNames files registry = .ok names ↔
      ∃ entries, files.list registry = .ok entries ∧ entries.map Text.Utf8.decodeLossy = names := by
  exact map_eq_ok_iff

namespace FileTree

theorem attributeText_eq_iff {files : FileTree} {path : Path} {text : List Char} (nonempty : text ≠ []) :
    files.attributeText path = text ↔
      ∃ content, files.readBytes path = .ok content ∧ Text.trim (Text.Utf8.decodeLossy content) = text := by
  unfold attributeText
  cases files.readBytes path with
  | error cause => simp [nonempty.symm]
  | ok content => simp

end FileTree

namespace BlockEntry

theorem find?_eq_some_iff {files : FileTree} {registry : Path} {name : List Char} {entry : BlockEntry} :
    find? files registry name = some entry ↔
      ∃ target, files.readLink (pathOf registry name) = .ok target ∧
        entry = { name, path := pathOf registry name, target } := by
  simp only [find?]
  cases files.readLink (pathOf registry name) with
  | error cause => simp
  | ok target => simp [eq_comm]

/-- The registry has a link of this name to a device that is neither virtual nor a floppy drive nor an optical drive.
The target is looked at byte by byte. -/
structure Reported (files : FileTree) (registry : Path) (name : List Char) : Prop where
  linked : ∃ target, files.readLink (registry.join (.ofText name)) = .ok target ∧
    ¬Text.Utf8.encode "../devices/virtual/".toList <+: target.bytes ∧
    ¬Text.Utf8.encode "../devices/platform/floppy".toList <+: target.bytes
  notOptical : ∀ content,
    files.readBytes (((registry.join (.ofText name)).join (.ofString "device")).join (.ofString "type")) = .ok content →
      Text.trim (Text.Utf8.decodeLossy content) ≠ ['5']

theorem virtualPrefix_isPrefix_iff (bytes : List UInt8) :
    virtualPrefix <+: Text.Utf8.decodeLossy bytes ↔ Text.Utf8.encode "../devices/virtual/".toList <+: bytes :=
  Text.Utf8.isPrefix_decodeLossy_iff (List.all_iff_forall_prop.mp (by decide +kernel)) bytes

theorem floppyPrefix_isPrefix_iff (bytes : List UInt8) :
    floppyPrefix <+: Text.Utf8.decodeLossy bytes ↔ Text.Utf8.encode "../devices/platform/floppy".toList <+: bytes :=
  Text.Utf8.isPrefix_decodeLossy_iff (List.all_iff_forall_prop.mp (by decide +kernel)) bytes

theorem exclusion?_eq_none_iff {files : FileTree} {entry : BlockEntry} :
    entry.exclusion? files = none ↔
      ¬Text.Utf8.encode "../devices/virtual/".toList <+: entry.target.bytes ∧
        ¬Text.Utf8.encode "../devices/platform/floppy".toList <+: entry.target.bytes ∧
        files.attributeText (entry.hardware.join (.ofString "type")) ≠ opticalType := by
  rw [← virtualPrefix_isPrefix_iff, ← floppyPrefix_isPrefix_iff]
  simp only [exclusion?, List.isPrefixOf_iff_prefix]
  constructor
  · intro accepted
    split at accepted
    next => cases accepted
    next notVirtual =>
      split at accepted
      next => cases accepted
      next notFloppy =>
        split at accepted
        next => cases accepted
        next notOptical => exact ⟨notVirtual, notFloppy, notOptical⟩
  · intro passed
    obtain ⟨notVirtual, notFloppy, notOptical⟩ := passed
    rw [if_neg notVirtual, if_neg notFloppy, if_neg notOptical]

theorem reported_iff {files : FileTree} {registry : Path} {name : List Char} :
    Reported files registry name ↔
      ∃ entry, find? files registry name = some entry ∧ entry.exclusion? files = none := by
  have optical (path : Path) : files.attributeText path ≠ opticalType ↔
      ∀ content, files.readBytes path = .ok content → Text.trim (Text.Utf8.decodeLossy content) ≠ ['5'] := by
    have nonempty : opticalType ≠ [] := List.cons_ne_nil _ _
    rw [ne_eq, FileTree.attributeText_eq_iff nonempty]
    simp [opticalType]
  constructor
  · intro reported
    obtain ⟨target, read, notVirtual, notFloppy⟩ := reported.linked
    refine ⟨_, find?_eq_some_iff.mpr ⟨target, read, rfl⟩, ?_⟩
    exact exclusion?_eq_none_iff.mpr ⟨notVirtual, notFloppy, (optical _).mpr reported.notOptical⟩
  · intro found
    obtain ⟨entry, found, accepted⟩ := found
    obtain ⟨target, read, rfl⟩ := find?_eq_some_iff.mp found
    obtain ⟨notVirtual, notFloppy, notOptical⟩ := exclusion?_eq_none_iff.mp accepted
    exact ⟨⟨target, read, notVirtual, notFloppy⟩, (optical _).mp notOptical⟩

instance (files : FileTree) (registry : Path) : DecidablePred (Reported files registry) := fun name =>
  decidable_of_iff (∃ entry ∈ find? files registry name, entry.exclusion? files = none) reported_iff.symm

end BlockEntry

namespace Device

variable {host : Host} {locations : Locations} {tables : Tables} {unit : UInt64} {name : List Char}

theorem map_name_ofName? :
    (ofName? host locations tables unit name).map (·.name) =
      if BlockEntry.Reported host.files locations.registry name then some (String.ofList name) else none := by
  cases made : ofName? host locations tables unit name with
  | none =>
      have notReported : ¬BlockEntry.Reported host.files locations.registry name := by
        intro reported
        obtain ⟨entry, found, accepted⟩ := BlockEntry.reported_iff.mp reported
        rw [ofName?_eq_some_iff.mpr ⟨entry, found, accepted, rfl⟩] at made
        cases made
      rw [if_neg notReported]
      rfl
  | some device =>
      obtain ⟨entry, found, accepted, rfl⟩ := ofName?_eq_some_iff.mp made
      rw [if_pos (BlockEntry.reported_iff.mpr ⟨entry, found, accepted⟩)]
      obtain ⟨_, _, rfl⟩ := BlockEntry.find?_eq_some_iff.mp found
      rfl

end Device

/-- The records made for some names are those of the reported ones, in their order. -/
theorem Host.map_name_devices (host : Host) (locations : Locations) (tables : Tables) (unit : UInt64)
    (names : List (List Char)) :
    (host.devices locations tables unit names).map (·.name) =
      (names.filter fun name => BlockEntry.Reported host.files locations.registry name).map String.ofList := by
  rw [Host.devices, List.map_filterMap]
  simp only [Device.map_name_ofName?]
  induction names with
  | nil => rfl
  | cons name names ih =>
      by_cases reported : BlockEntry.Reported host.files locations.registry name
      · simp [reported, ih]
      · simp [reported, ih]

/-- The records of an inventory are named, in the order of the listing, for the reported ones among the registered
entries. That a target is compared as decoded text makes no difference to comparing its bytes. -/
theorem Host.names_eq_reported {host : Host} {locations : Locations} {config : Config} {devices : List Device}
    (success : host.inventory locations config = .ok devices) :
    (∃ entries, host.files.list locations.registry = .ok entries ∧
      devices.map (·.name) =
        ((entries.map Text.Utf8.decodeLossy).filter fun name =>
          BlockEntry.Reported host.files locations.registry name).map String.ofList) ∧
      ∀ target : Path,
        (BlockEntry.virtualPrefix <+: Text.Utf8.decodeLossy target.bytes ↔
          Text.Utf8.encode "../devices/virtual/".toList <+: target.bytes) ∧
        (BlockEntry.floppyPrefix <+: Text.Utf8.decodeLossy target.bytes ↔
          Text.Utf8.encode "../devices/platform/floppy".toList <+: target.bytes) := by
  obtain ⟨names, _, _, registered, _, _, rfl⟩ := Host.inventory_eq_ok_iff.mp success
  obtain ⟨entries, listed, rfl⟩ := registeredNames_eq_ok_iff.mp registered
  refine ⟨⟨entries, listed, Host.map_name_devices _ _ _ _ _⟩, ?_⟩
  intro target
  exact ⟨BlockEntry.virtualPrefix_isPrefix_iff target.bytes, BlockEntry.floppyPrefix_isPrefix_iff target.bytes⟩

/-- A host whose registry also holds a loop device, a floppy drive, an optical drive, a file, and a name that is no
text. The target of its second disk almost begins like that of a virtual device, but for a byte that is no text. -/
def mixedHost : Host where
  files := {
    root := [
      (nameOf "sys", .directory [
        (nameOf "block", .directory [
          (nameOf "sda", .link (.ofString "../devices/sda")),
          (nameOf "loop0", .link (.ofString "../devices/virtual/block/loop0")),
          (nameOf "fd0", .link (.ofString "../devices/platform/floppy.0/block/fd0")),
          (nameOf "sr0", .link (.ofString "../devices/sr0")),
          (nameOf "notes", .file []),
          (nameOf "sd" ++ [0xFF], .link (.ofString "../devices/sdc")),
          (nameOf "sdb", .link ⟨nameOf "../devices/virtual" ++ [0xFF] ++ nameOf "/sdb"⟩)]),
        (nameOf "devices", .directory [
          (nameOf "sr0", .directory [
            (nameOf "device", .directory [(nameOf "type", .file (nameOf " 5\n"))])])])]),
      (nameOf "proc", .directory [(nameOf "mounts", .file []), (nameOf "partitions", .file [])])]
    workingDirectory := [] }
  freeSpace := fun _ => .error .noSuchEntry
where
  nameOf (name : String) : Name := Text.Utf8.encode name.toList

theorem Host.names_eq_reported_mixed :
    mixedHost.inventory .live {} = .ok [{ name := "sda" }, { name := "sdb" }] ∧
      ∃ entries, mixedHost.files.list Locations.live.registry = .ok entries ∧
        ["sda", "sdb"] =
          ((entries.map Text.Utf8.decodeLossy).filter fun name =>
            BlockEntry.Reported mixedHost.files Locations.live.registry name).map String.ofList := by
  have success : mixedHost.inventory .live {} = .ok [{ name := "sda" }, { name := "sdb" }] := by decide +kernel
  exact ⟨success, (Host.names_eq_reported success).1⟩

end BlockInventory
