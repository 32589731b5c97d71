import BlockInventory.FileTree.Edit
import BlockInventory.Proofs.Inventory.Selection
import BlockInventory.Proofs.UdevRecord

/-!
# Which record tells the serial number

A device that has a number has a record under it. If this record opens, it alone counts, whether or not it tells a
serial number, and whatever the older database holds. Only for a device without such a record the older database is
looked up.
-/

set_option autoImplicit false

namespace BlockInventory

namespace Serial

variable {files : FileTree} {locations : Locations} {name number : List Char} {device path : Path}
  {content : List UInt8}

/-- The path opens, and these are the bytes that can be read: of a directory there are none. -/
inductive Opens (files : FileTree) (path : Path) : List UInt8 → Prop where
  | file {content : List UInt8} : files.open? path = .ok (.file content) → Opens files path content
  | directory {entries : List (Name × Node)} : files.open? path = .ok (.directory entries) → Opens files path []

theorem record?_eq_some_iff : record? files path = some content ↔ Opens files path content := by
  unfold record?
  constructor
  · intro read
    split at read
    next opened =>
      cases read
      exact .file opened
    next opened =>
      cases read
      exact .directory opened
    next => cases read
  · intro opens
    cases opens with
    | file opened => rw [opened]
    | directory opened => rw [opened]

theorem record?_eq_none_iff : record? files path = none ↔ ∀ content, ¬Opens files path content := by
  simp only [Option.eq_none_iff_forall_ne_some, ne_eq, record?_eq_some_iff]

/-- The number of a device: what its attribute tells, if that is not blank. -/
structure HasNumber (files : FileTree) (device : Path) (number : List Char) : Prop where
  told : ∃ bytes, files.readBytes (device.join (.ofString "dev")) = .ok bytes ∧
    Text.trim (Text.Utf8.decodeLossy bytes) = number
  nonempty : number ≠ []

theorem hasNumber_iff :
    HasNumber files device number ↔ files.attributeText (device.join (.ofString "dev")) = number ∧ number ≠ [] := by
  constructor
  · intro hasNumber
    exact ⟨(FileTree.attributeText_eq_iff hasNumber.nonempty).mpr hasNumber.told, hasNumber.nonempty⟩
  · intro attributeTells
    obtain ⟨told, nonempty⟩ := attributeTells
    exact ⟨(FileTree.attributeText_eq_iff nonempty).mp told, nonempty⟩

theorem recordPath?_eq_some_iff :
    recordPath? files locations device = some path ↔
      ∃ number, HasNumber files device number ∧ locations.udevRecords.join (.ofText ('b' :: number)) = path := by
  simp only [hasNumber_iff, recordPath?]
  constructor
  · intro named
    split at named
    next => cases named
    next nonempty =>
      cases named
      exact ⟨_, ⟨rfl, nonempty⟩, rfl⟩
  · intro numbered
    obtain ⟨_, ⟨rfl, nonempty⟩, rfl⟩ := numbered
    exact if_neg nonempty

/-- The record under the number of the device opens with these bytes. -/
def NumberedRecord (files : FileTree) (locations : Locations) (device : Path) (content : List UInt8) : Prop :=
  ∃ number, HasNumber files device number ∧
    Opens files (locations.udevRecords.join (.ofText ('b' :: number))) content

theorem numberedRecord_iff :
    NumberedRecord files locations device content ↔
      (recordPath? files locations device).bind (record? files) = some content := by
  rw [Option.bind_eq_some_iff]
  constructor
  · intro numbered
    obtain ⟨number, hasNumber, opens⟩ := numbered
    exact ⟨_, recordPath?_eq_some_iff.mpr ⟨number, hasNumber, rfl⟩, record?_eq_some_iff.mpr opens⟩
  · intro found
    obtain ⟨_, named, read⟩ := found
    obtain ⟨number, hasNumber, rfl⟩ := recordPath?_eq_some_iff.mp named
    exact ⟨number, hasNumber, record?_eq_some_iff.mp read⟩

theorem find?_of_numberedRecord (numbered : NumberedRecord files locations device content) :
    find? files locations name device = UdevRecord.serial? content := by
  rw [find?, firstRecord?, numberedRecord_iff.mp numbered]
  rfl

theorem not_numberedRecord_iff :
    (∀ content, ¬NumberedRecord files locations device content) ↔
      (recordPath? files locations device).bind (record? files) = none := by
  simp only [Option.eq_none_iff_forall_ne_some, ne_eq, numberedRecord_iff]

theorem find?_of_no_numberedRecord (unnumbered : ∀ content, ¬NumberedRecord files locations device content) :
    find? files locations name device =
      (record? files (locations.legacyUdevRecords.join (.ofText ("block:".toList ++ name)))).bind
        UdevRecord.serial? := by
  rw [find?, firstRecord?, not_numberedRecord_iff.mp unnumbered, Option.none_or, legacyRecordPath]

/-- Another file tree tells the same number of the device, and holds the same record under it. Everything else in it
may be different. -/
structure KeepsNumberedRecord (files others : FileTree) (locations : Locations) (device : Path) : Prop where
  number : ∀ number, HasNumber others device number ↔ HasNumber files device number
  record : ∀ number content, HasNumber files device number →
    (Opens others (locations.udevRecords.join (.ofText ('b' :: number))) content ↔
      Opens files (locations.udevRecords.join (.ofText ('b' :: number))) content)

theorem KeepsNumberedRecord.find?_eq {others : FileTree} (keeps : KeepsNumberedRecord files others locations device)
    (numbered : NumberedRecord files locations device content) (name : List Char) :
    find? others locations name device = find? files locations name device := by
  have kept : NumberedRecord others locations device content := by
    obtain ⟨number, hasNumber, opens⟩ := numbered
    exact ⟨number, (keeps.number number).mpr hasNumber, (keeps.record number content hasNumber).mpr opens⟩
  rw [find?_of_numberedRecord numbered, find?_of_numberedRecord kept]

theorem find?_onOneLine {serial : List Char} (found : find? files locations name device = some serial) :
    '=' ∉ serial ∧ '\n' ∉ serial := by
  obtain ⟨record, _, told⟩ := Option.bind_eq_some_iff.mp found
  exact UdevRecord.serial?_onOneLine told

end Serial

theorem Device.serial_ofEntry_eq_some_iff {host : Host} {locations : Locations} {tables : Tables} {unit : UInt64}
    {entry : BlockEntry} {serial : String} :
    (ofEntry host locations tables unit entry).serial = some serial ↔
      Serial.find? host.files locations entry.name entry.path = some serial.toList ∧ serial ≠ "" := by
  rw [ne_eq, ← String.toList_eq_nil_iff]
  refine map_ofList_eq_some_iff.trans ?_
  rw [Option.bind_eq_some_iff]
  simp only [nonEmpty?_eq_some_iff]
  constructor
  · intro kept
    obtain ⟨text, found, nonempty, rfl⟩ := kept
    exact ⟨found, nonempty⟩
  · intro kept
    obtain ⟨found, nonempty⟩ := kept
    exact ⟨serial.toList, found, nonempty, rfl⟩

/-- The record under the number of a device decides if it opens, also without a serial number, and then the older
database makes no difference. Otherwise the older record decides if it opens. The serial number of the device is what
is found so, unless that is empty. -/
theorem Serial.numbered_record_decides (host : Host) (locations : Locations) (name : List Char) (device : Path) :
    (∀ content, NumberedRecord host.files locations device content →
      find? host.files locations name device = UdevRecord.serial? content ∧
        ∀ others, KeepsNumberedRecord host.files others locations device →
          find? others locations name device = find? host.files locations name device) ∧
      ((∀ content, ¬NumberedRecord host.files locations device content) →
        (∀ content, Opens host.files (locations.legacyUdevRecords.join (.ofText ("block:".toList ++ name))) content →
          find? host.files locations name device = UdevRecord.serial? content) ∧
        ((∀ content,
            ¬Opens host.files (locations.legacyUdevRecords.join (.ofText ("block:".toList ++ name))) content) →
          find? host.files locations name device = none)) ∧
      ∀ tables unit target serial,
        (Device.ofEntry host locations tables unit { name, path := device, target }).serial = some serial ↔
          find? host.files locations name device = some serial.toList ∧ serial ≠ "" := by
  refine ⟨?_, ?_, ?_⟩
  · intro content numbered
    refine ⟨find?_of_numberedRecord numbered, ?_⟩
    intro others keeps
    exact keeps.find?_eq numbered name
  · intro unnumbered
    rw [find?_of_no_numberedRecord unnumbered]
    constructor
    · intro content opens
      rw [record?_eq_some_iff.mpr opens]
      rfl
    · intro unopened
      rw [record?_eq_none_iff.mpr unopened]
      rfl
  · intro tables unit target serial
    exact Device.serial_ofEntry_eq_some_iff

/-- Two disks that the older database knows. Of the first there is also a record under its number, with an empty serial
number. -/
def twiceRecordedHost : Host where
  files := ((((FileTree.empty.put (.ofString "/sys/block/sda/dev") (fileOf "8:0\n")).put
    (.ofString "/run/udev/data/b8:0") (fileOf "E:ID_SERIAL_SHORT=\n")).put
    (.ofString "/dev/.udev/db/block:sda") (fileOf "E:ID_SERIAL_SHORT=OLD\n")).put
    (.ofString "/sys/block/sdb/dev") (fileOf "8:16\n")).put
    (.ofString "/dev/.udev/db/block:sdb") (fileOf "E:ID_SERIAL_SHORT=OLDER\n")
  freeSpace := fun _ => .error .noSuchEntry
where
  fileOf (text : String) : Node := .file (Text.Utf8.encode text.toList)

theorem keepsNumberedRecord_twiceRecordedHost :
    Serial.KeepsNumberedRecord twiceRecordedHost.files
      (twiceRecordedHost.files.remove (.ofString "/dev/.udev/db/block:sda")) .live (.ofString "/sys/block/sda") := by
  have told : twiceRecordedHost.files.attributeText ((Path.ofString "/sys/block/sda").join (.ofString "dev")) =
      "8:0".toList := by decide +kernel
  have same : (twiceRecordedHost.files.remove (.ofString "/dev/.udev/db/block:sda")).attributeText
      ((Path.ofString "/sys/block/sda").join (.ofString "dev")) = "8:0".toList := by decide +kernel
  constructor
  · intro number
    rw [Serial.hasNumber_iff, Serial.hasNumber_iff, same, told]
  · intro number content hasNumber
    obtain ⟨rfl, _⟩ := Serial.hasNumber_iff.mp hasNumber
    rw [told, ← Serial.record?_eq_some_iff, ← Serial.record?_eq_some_iff]
    exact iff_of_eq (congrArg (· = some content) (by decide +kernel))

/-- The older record neither gives the first disk its serial number nor is missed, while the second disk has its own from
there. A disk without any record has none. -/
theorem Serial.numbered_record_decides_empty :
    find? twiceRecordedHost.files .live "sda".toList (.ofString "/sys/block/sda") = some [] ∧
      find? (twiceRecordedHost.files.remove (.ofString "/dev/.udev/db/block:sda")) .live "sda".toList
        (.ofString "/sys/block/sda") = some [] ∧
      (Device.ofEntry twiceRecordedHost .live (.ofTexts [] []) 1000
        { name := "sda".toList, path := .ofString "/sys/block/sda", target := .ofString "../devices/sda" }).serial ≠
        some "OLD" ∧
      find? twiceRecordedHost.files .live "sdb".toList (.ofString "/sys/block/sdb") = some "OLDER".toList ∧
      (Device.ofEntry twiceRecordedHost .live (.ofTexts [] []) 1000
        { name := "sdb".toList, path := .ofString "/sys/block/sdb", target := .ofString "../devices/sdb" }).serial =
        some "OLDER" ∧
      find? twiceRecordedHost.files .live "sdc".toList (.ofString "/sys/block/sdc") = none := by
  obtain ⟨decides, _, assembled⟩ :=
    numbered_record_decides twiceRecordedHost .live "sda".toList (.ofString "/sys/block/sda")
  obtain ⟨_, older, assembledOlder⟩ :=
    numbered_record_decides twiceRecordedHost .live "sdb".toList (.ofString "/sys/block/sdb")
  obtain ⟨_, nowhere, _⟩ := numbered_record_decides twiceRecordedHost .live "sdc".toList (.ofString "/sys/block/sdc")
  have numbered : NumberedRecord twiceRecordedHost.files .live (.ofString "/sys/block/sda")
      (Text.Utf8.encode "E:ID_SERIAL_SHORT=\n".toList) := numberedRecord_iff.mpr (by decide +kernel)
  obtain ⟨found, independent⟩ := decides _ numbered
  have empty : find? twiceRecordedHost.files .live "sda".toList (.ofString "/sys/block/sda") = some [] :=
    found.trans (by decide +kernel)
  have assembledEmpty : (Device.ofEntry twiceRecordedHost .live (.ofTexts [] []) 1000
      { name := "sda".toList, path := .ofString "/sys/block/sda", target := .ofString "../devices/sda" }).serial ≠
      some "OLD" := by
    rw [ne_eq, assembled, empty]
    decide +kernel
  have recorded : Opens twiceRecordedHost.files
      (Locations.live.legacyUdevRecords.join (.ofText ("block:".toList ++ "sdb".toList)))
      (Text.Utf8.encode "E:ID_SERIAL_SHORT=OLDER\n".toList) := record?_eq_some_iff.mp (by decide +kernel)
  have told : find? twiceRecordedHost.files .live "sdb".toList (.ofString "/sys/block/sdb") = some "OLDER".toList :=
    ((older (not_numberedRecord_iff.mpr (by decide +kernel))).1 _ recorded).trans (by decide +kernel)
  refine ⟨empty, (independent _ keepsNumberedRecord_twiceRecordedHost).trans empty, assembledEmpty, told, ?_, ?_⟩
  · exact (assembledOlder _ _ _ _).mpr ⟨told, by decide⟩
  · exact (nowhere (not_numberedRecord_iff.mpr (by decide +kernel))).2 (record?_eq_none_iff.mp (by decide +kernel))

end BlockInventory
