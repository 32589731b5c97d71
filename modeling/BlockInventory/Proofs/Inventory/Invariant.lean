import BlockInventory.Proofs.Device.Filled
import BlockInventory.Proofs.FileTree.Entries
import BlockInventory.Proofs.Inventory.Partitions
import BlockInventory.Proofs.Inventory.Serials

/-!
# What holds of every record

Whatever bytes a host keeps, its records hold no empty texts: what is cut off, looked for or decoded on the way from a
file to a record leaves either something or no value at all. So their JSON texts hold nothing empty either.
-/

set_option autoImplicit false

namespace BlockInventory

/-! ## Links -/

namespace Path

/-- A name that can lie in a directory and stands for no place by itself. -/
structure IsEntryName (name : Name) : Prop where
  nonempty : name ≠ []
  slashFree : slash ∉ name
  notHere : name ≠ here
  notAbove : name ≠ above

theorem isEntryName_of_fileName? {path : Path} {name : Name} (last : path.fileName? = some name) : IsEntryName name := by
  unfold fileName? at last
  split at last
  next part found =>
    split at last
    next => cases last
    next notAbove =>
      cases last
      obtain ⟨isPart, notHere⟩ := List.mem_filter.mp (List.mem_of_getLast? found)
      obtain ⟨piece, nonempty⟩ := List.mem_filter.mp isPart
      constructor
      · simpa using nonempty
      · exact Text.not_mem_of_mem_splitOn piece
      · simpa using notHere
      · exact notAbove
  next => cases last

end Path

theorem FileTree.linkName?_spec {files : FileTree} {path : Path} {name : List Char}
    (read : files.linkName? path = some name) : name ≠ [] ∧ '/' ∉ name ∧ name ≠ ['.'] ∧ name ≠ ['.', '.'] := by
  have slash : Text.Utf8.IsAscii '/' := by decide
  have dot : Text.Utf8.IsAscii '.' := by decide
  have here : ∀ character ∈ ['.'], Text.Utf8.IsAscii character := by simpa using dot
  have above : ∀ character ∈ ['.', '.'], Text.Utf8.IsAscii character := by simpa using dot
  unfold linkName? at read
  cases link : files.readLink path with
  | error cause =>
      rw [link] at read
      cases read
  | ok target =>
      rw [link] at read
      obtain ⟨bytes, last, rfl⟩ := Option.map_eq_some_iff.mp read
      have entryName := Path.isEntryName_of_fileName? last
      refine ⟨Text.Utf8.decodeLossy_ne_nil entryName.nonempty, ?_, ?_, ?_⟩
      · intro inside
        exact entryName.slashFree ((Text.Utf8.mem_decodeLossy_iff slash bytes).mp inside)
      · intro same
        exact entryName.notHere ((Text.Utf8.decodeLossy_eq_iff here bytes).mp same).symm
      · intro same
        exact entryName.notAbove ((Text.Utf8.decodeLossy_eq_iff above bytes).mp same).symm

/-! ## Attributes -/

theorem FileTree.trimmed_attributeText (files : FileTree) (path : Path) : Text.Trimmed (files.attributeText path) := by
  unfold attributeText
  split
  · exact Text.trimmed_trim _
  · exact Text.trimmed_trim []

theorem FileTree.filled_attributeText {files : FileTree} {path : Path} {text : List Char}
    (told : nonEmpty? (files.attributeText path) = some text) : text ≠ [] ∧ Text.Trimmed text := by
  obtain ⟨nonempty, rfl⟩ := nonEmpty?_eq_some_iff.mp told
  exact ⟨nonempty, files.trimmed_attributeText path⟩

theorem Device.vendor?_spec {text vendor : List Char} (told : vendor? text = some vendor) :
    ¬numberedVendorPrefix <+: vendor ∧ nonEmpty? text = some vendor := by
  unfold vendor? at told
  split at told
  next => cases told
  next notNumbered =>
    obtain ⟨_, rfl⟩ := nonEmpty?_eq_some_iff.mp told
    exact ⟨by simpa using notNumbered, told⟩

/-! ## Records -/

theorem BlockEntry.name_ne_nil {files : FileTree} {registry : Path} {name : List Char} {entry : BlockEntry}
    (found : find? files registry name = some entry) : entry.name ≠ [] := by
  obtain ⟨target, read, rfl⟩ := find?_eq_some_iff.mp found
  intro empty
  have unnamed : pathOf registry name = registry.join ⟨[]⟩ := by
    have nameEmpty : name = [] := empty
    rw [pathOf, nameEmpty]
    rfl
  rw [unnamed] at read
  exact files.readLink_join_nil_ne_ok registry target read

namespace Device

/-- What a record holds besides being filled: names that can lie in a directory, texts without blank ends, a serial
number from a single line, and partitions beneath its name. -/
structure WellFormed (device : Device) : Prop extends device.NoneEmpty where
  driver_slashFree : ∀ driver, device.driver = some driver → '/' ∉ driver.toList
  driver_notDots : device.driver ≠ some "." ∧ device.driver ≠ some ".."
  vendor_notNumbered : ∀ vendor, device.vendor = some vendor → ¬"0x".toList <+: vendor.toList
  vendor_trimmed : ∀ vendor, device.vendor = some vendor → Text.Trimmed vendor.toList
  model_trimmed : ∀ model, device.model = some model → Text.Trimmed model.toList
  serial_onOneLine : ∀ serial, device.serial = some serial → '=' ∉ serial.toList ∧ '\n' ∉ serial.toList
  partition_beneath : ∀ name partition, (name, partition) ∈ device.partitionEntries →
    device.name.toList <+: name.toList

section OfEntry

variable {host : Host} {locations : Locations} {unit : UInt64} {mounts partitions : List Char} {entry : BlockEntry}

theorem driver_ofEntry {tables : Tables} {driver : String}
    (told : (ofEntry host locations tables unit entry).driver = some driver) :
    driver.toList ≠ [] ∧ '/' ∉ driver.toList ∧ driver.toList ≠ ['.'] ∧ driver.toList ≠ ['.', '.'] := by
  have read := map_ofList_eq_some_iff.mp told
  exact FileTree.linkName?_spec read

theorem vendor_ofEntry {tables : Tables} {vendor : String}
    (told : (ofEntry host locations tables unit entry).vendor = some vendor) :
    ¬numberedVendorPrefix <+: vendor.toList ∧ vendor.toList ≠ [] ∧ Text.Trimmed vendor.toList := by
  have read := map_ofList_eq_some_iff.mp told
  obtain ⟨notNumbered, kept⟩ := vendor?_spec read
  exact ⟨notNumbered, FileTree.filled_attributeText kept⟩

theorem model_ofEntry {tables : Tables} {model : String}
    (told : (ofEntry host locations tables unit entry).model = some model) :
    model.toList ≠ [] ∧ Text.Trimmed model.toList := by
  have read := map_ofList_eq_some_iff.mp told
  exact FileTree.filled_attributeText read

theorem serial_ofEntry {tables : Tables} {serial : String}
    (told : (ofEntry host locations tables unit entry).serial = some serial) :
    serial.toList ≠ [] ∧ '=' ∉ serial.toList ∧ '\n' ∉ serial.toList := by
  obtain ⟨found, nonempty⟩ := serial_ofEntry_eq_some_iff.mp told
  refine ⟨?_, Serial.find?_onOneLine found⟩
  intro empty
  exact nonempty (String.toList_eq_nil_iff.mp empty)

theorem noneEmpty_ofEntry (named : entry.name ≠ []) :
    (ofEntry host locations (.ofTexts mounts partitions) unit entry).NoneEmpty where
  name := by
    intro empty
    exact named (String.ofList_eq_empty_iff.mp empty)
  driver := by
    intro empty
    exact (driver_ofEntry empty).1 rfl
  vendor := by
    intro empty
    exact (vendor_ofEntry empty).2.1 rfl
  model := by
    intro empty
    exact (model_ofEntry empty).1 rfl
  serial := by
    intro empty
    exact (serial_ofEntry empty).1 rfl
  partitions := by
    intro claimed held empty
    have noEntries : (ofEntry host locations (.ofTexts mounts partitions) unit entry).partitionEntries = [] := by
      simp only [partitionEntries, held, empty]
    have noMap := partitions_ofEntry_eq_none_iff.mpr noEntries
    rw [held] at noMap
    cases noMap
  mountPoints := by
    intro name partition member
    obtain ⟨_, field, first, rfl⟩ := mem_partitionEntries_ofEntry_iff.mp member
    refine ⟨_, (MountedPartition.ofMount_correlates host unit partitions name first.ne_nil).mountPoint, ?_⟩
    intro empty
    exact MountTable.decodeField_ne_nil first.ne_nil (String.ofList_eq_empty_iff.mp empty)

theorem wellFormed_ofEntry (named : entry.name ≠ []) :
    (ofEntry host locations (.ofTexts mounts partitions) unit entry).WellFormed where
  toNoneEmpty := noneEmpty_ofEntry named
  driver_slashFree := by
    intro driver told
    exact (driver_ofEntry told).2.1
  driver_notDots := by
    constructor
    · intro told
      exact (driver_ofEntry told).2.2.1 rfl
    · intro told
      exact (driver_ofEntry told).2.2.2 rfl
  vendor_notNumbered := by
    intro vendor told
    exact (vendor_ofEntry told).1
  vendor_trimmed := by
    intro vendor told
    exact (vendor_ofEntry told).2.2
  model_trimmed := by
    intro model told
    exact (model_ofEntry told).2
  serial_onOneLine := by
    intro serial told
    exact (serial_ofEntry told).2
  partition_beneath := by
    intro name partition member
    obtain ⟨beneath, _⟩ := mem_partitionEntries_ofEntry_iff.mp member
    rwa [toList_name_ofEntry]

end OfEntry

/-- Read back, each of the texts that are written of a record is a filled value. -/
structure TextsFilled (device : Device) : Prop where
  compact : ∃ value, Json.Value.ofText? device.toJson.compact = some value ∧ value.Filled
  pretty : ∀ level, ∃ value, Json.Value.ofText? (device.toJson.pretty level) = some value ∧ value.Filled

theorem NoneEmpty.textsFilled {device : Device} (noneEmpty : device.NoneEmpty) : device.TextsFilled where
  compact := ⟨device.toJson, device.spellable_toJson.ofText?_compact, noneEmpty.filled_toJson⟩
  pretty := fun level => ⟨device.toJson, device.spellable_toJson.ofText?_pretty level, noneEmpty.filled_toJson⟩

end Device

/-- Every record of an inventory is well-formed, and so its texts leave nothing empty. -/
theorem Host.inventory_wellFormed {host : Host} {locations : Locations} {config : Config} {devices : List Device}
    (success : host.inventory locations config = .ok devices) :
    ∀ device ∈ devices, device.WellFormed ∧ device.TextsFilled := by
  obtain ⟨names, mounts, partitions, _, _, _, rfl⟩ := Host.inventory_eq_ok_iff.mp success
  intro device member
  obtain ⟨_, _, entry, found, _, rfl⟩ := Host.mem_devices_iff.mp member
  have wellFormed :
      (Device.ofEntry host locations (.ofTexts mounts partitions) config.effectiveUnit entry).WellFormed :=
    Device.wellFormed_ofEntry (BlockEntry.name_ne_nil found)
  exact ⟨wellFormed, wellFormed.toNoneEmpty.textsFilled⟩

/-- A host with a blank model, a padded vendor, a serial number that is no text and a blank mount point. -/
def oddHost : Host where
  files := {
    root := [
      (nameOf "sys", .directory [
        (nameOf "block", .directory [(nameOf "sda", .link (.ofString "../devices/sda"))]),
        (nameOf "devices", .directory [
          (nameOf "sda", .directory [
            (nameOf "dev", .file (nameOf "8:0\n")),
            (nameOf "device", .directory [
              (nameOf "vendor", .file (nameOf "\tATA  \n")),
              (nameOf "model", .file (nameOf "   \n")),
              (nameOf "driver", .link (.ofString "../../bus/drivers/sd/./"))])])])]),
      (nameOf "proc", .directory [
        (nameOf "mounts", .file (nameOf "/dev/sda1 \\040 ext4\n")), (nameOf "partitions", .file [])]),
      (nameOf "run", .directory [(nameOf "udev", .directory [(nameOf "data", .directory [
        (nameOf "b8:0", .file (nameOf "E:ID_SERIAL_SHORT=A=B\nE:ID_SERIAL_SHORT=C" ++ [0xFF, 0x0D, 0x0A]))])])])]
    workingDirectory := [] }
  freeSpace := fun _ => .error .noSuchEntry
where
  nameOf (name : String) : Name := Text.Utf8.encode name.toList

def oddDisk : Device where
  name := "sda"
  driver := some "sd"
  vendor := some "ATA"
  serial := some "C\uFFFD"
  partitions := some (.ofLast [("sda1", { mountPoint := some " " })])

theorem Host.inventory_wellFormed_odd :
    oddHost.inventory .live {} = .ok [oddDisk] ∧ oddDisk.WellFormed ∧ oddDisk.TextsFilled := by
  have success : oddHost.inventory .live {} = .ok [oddDisk] := by decide +kernel
  exact ⟨success, Host.inventory_wellFormed success oddDisk List.mem_cons_self⟩

end BlockInventory
