import BlockInventory.Inventory
import BlockInventory.Proofs.Success
import Mathlib.Control.Monad.Basic
import Mathlib.Data.List.Forall2

/-!
# Where the records of an inventory come from

An inventory succeeds exactly when the registry is listed and both tables are read; its records are then those of the
registered names that are links and not excluded, in their order.
-/

set_option autoImplicit false

namespace BlockInventory

/-- The tables that two texts hold. -/
def Tables.ofTexts (mounts partitions : List Char) : Tables where
  mounts := (MountTable.ofText mounts).entries
  partitions := .ofText partitions

@[simp] theorem Tables.mounts_ofTexts (mounts partitions : List Char) :
    (Tables.ofTexts mounts partitions).mounts = (MountTable.ofText mounts).entries := rfl

@[simp] theorem Tables.partitions_ofTexts (mounts partitions : List Char) :
    (Tables.ofTexts mounts partitions).partitions = .ofText partitions := rfl

theorem Tables.read_eq_ok_iff {files : FileTree} {locations : Locations} {tables : Tables} :
    Tables.read files locations = .ok tables ↔
      ∃ mounts partitions, files.readText locations.mountTable = .ok mounts ∧
        files.readText locations.partitionTable = .ok partitions ∧
        Tables.ofTexts mounts partitions = tables := by
  simp only [Tables.read, bind_eq_ok_iff, mapError_eq_ok_iff, Except.ok.injEq, exists_and_left]
  rfl

/-- What is read of a host before any record is made. -/
structure Sources where
  names : List (List Char)
  tables : Tables

/-- Only the files at three locations count: the registry, then the tables. -/
def Sources.read (files : FileTree) (locations : Locations) : Except InventoryError Sources := do
  let names ← (registeredNames files locations.registry).mapError (.registry locations.registry)
  let tables ← Tables.read files locations
  .ok { names, tables }

theorem Sources.read_eq_ok_iff {files : FileTree} {locations : Locations} {sources : Sources} :
    Sources.read files locations = .ok sources ↔
      registeredNames files locations.registry = .ok sources.names ∧ Tables.read files locations = .ok sources.tables := by
  simp only [Sources.read, bind_eq_ok_iff, mapError_eq_ok_iff]
  constructor
  · intro success
    obtain ⟨_, registered, _, read, made⟩ := success
    cases made
    exact ⟨registered, read⟩
  · intro success
    obtain ⟨registered, read⟩ := success
    exact ⟨_, registered, _, read, rfl⟩

theorem Host.inventory_eq_map_read (host : Host) (locations : Locations) (config : Config) :
    host.inventory locations config = (Sources.read host.files locations).map fun sources =>
      host.devices locations sources.tables config.effectiveUnit sources.names := by
  unfold Host.inventory Sources.read
  cases (registeredNames host.files locations.registry).mapError (InventoryError.registry locations.registry) with
  | error failure => rfl
  | ok names =>
      cases Tables.read host.files locations with
      | error failure => rfl
      | ok tables => rfl

theorem Host.inventory_eq_ok_iff {host : Host} {locations : Locations} {config : Config}
    {devices : List Device} :
    host.inventory locations config = .ok devices ↔
      ∃ names mounts partitions, registeredNames host.files locations.registry = .ok names ∧
        host.files.readText locations.mountTable = .ok mounts ∧
        host.files.readText locations.partitionTable = .ok partitions ∧
        host.devices locations (.ofTexts mounts partitions) config.effectiveUnit names = devices := by
  rw [Host.inventory_eq_map_read, map_eq_ok_iff]
  constructor
  · intro success
    obtain ⟨sources, read, made⟩ := success
    obtain ⟨registered, readTables⟩ := Sources.read_eq_ok_iff.mp read
    obtain ⟨mounts, partitions, readMounts, readPartitions, tables⟩ := Tables.read_eq_ok_iff.mp readTables
    exact ⟨sources.names, mounts, partitions, registered, readMounts, readPartitions, tables ▸ made⟩
  · intro success
    obtain ⟨names, mounts, partitions, registered, readMounts, readPartitions, made⟩ := success
    have readTables := Tables.read_eq_ok_iff.mpr ⟨mounts, partitions, readMounts, readPartitions, rfl⟩
    exact ⟨{ names, tables := .ofTexts mounts partitions }, Sources.read_eq_ok_iff.mpr ⟨registered, readTables⟩, made⟩

theorem nonEmpty?_eq_some_iff {text result : List Char} : nonEmpty? text = some result ↔ text ≠ [] ∧ text = result := by
  unfold nonEmpty?
  split
  next empty => simp [empty]
  next nonempty => simp [nonempty]

theorem map_ofList_eq_some_iff {text : Option (List Char)} {string : String} :
    text.map String.ofList = some string ↔ text = some string.toList := by
  rw [Option.map_eq_some_iff]
  constructor
  · intro written
    obtain ⟨characters, rfl, rfl⟩ := written
    rw [String.toList_ofList]
  · intro read
    exact ⟨string.toList, read, String.ofList_toList⟩

theorem Device.toList_name_ofEntry (host : Host) (locations : Locations) (tables : Tables) (unit : UInt64)
    (entry : BlockEntry) : (ofEntry host locations tables unit entry).name.toList = entry.name :=
  String.toList_ofList

theorem Device.ofName?_eq_some_iff {host : Host} {locations : Locations} {tables : Tables} {unit : UInt64}
    {name : List Char} {device : Device} :
    Device.ofName? host locations tables unit name = some device ↔
      ∃ entry, BlockEntry.find? host.files locations.registry name = some entry ∧
        entry.exclusion? host.files = none ∧ Device.ofEntry host locations tables unit entry = device := by
  unfold Device.ofName?
  cases BlockEntry.find? host.files locations.registry name with
  | none => simp
  | some entry =>
      cases excluded : entry.exclusion? host.files with
      | none => simp [excluded]
      | some reason => simp [excluded]

theorem Host.mem_devices_iff {host : Host} {locations : Locations} {tables : Tables} {unit : UInt64}
    {names : List (List Char)} {device : Device} :
    device ∈ host.devices locations tables unit names ↔
      ∃ name ∈ names, ∃ entry, BlockEntry.find? host.files locations.registry name = some entry ∧
        entry.exclusion? host.files = none ∧ Device.ofEntry host locations tables unit entry = device := by
  simp only [Host.devices, List.mem_filterMap, Device.ofName?_eq_some_iff]

/-- Which names have a record depends on the files alone, so two runs are related if the records of one entry are. -/
theorem Device.rel_ofName? {related : Device → Device → Prop} {files : FileTree} {locations : Locations}
    {freeSpace otherFreeSpace : Path → Except SystemError FreeSpace} {tables otherTables : Tables}
    {unit otherUnit : UInt64} {name : List Char}
    (relates : ∀ entry, BlockEntry.find? files locations.registry name = some entry →
      related (ofEntry { files, freeSpace } locations tables unit entry)
        (ofEntry { files, freeSpace := otherFreeSpace } locations otherTables otherUnit entry)) :
    Option.Rel related (ofName? { files, freeSpace } locations tables unit name)
      (ofName? { files, freeSpace := otherFreeSpace } locations otherTables otherUnit name) := by
  unfold ofName?
  cases found : BlockEntry.find? files locations.registry name with
  | none => exact .none
  | some entry =>
      simp only [Option.bind_eq_bind, Option.bind_some]
      cases entry.exclusion? files with
      | none => exact .some (relates entry found)
      | some reason => exact .none

/-- Two runs that go through the same names have related records if the records of each entry are. The tables may be
others for each name. -/
theorem Device.forall₂_ofNames {related : Device → Device → Prop} {files : FileTree} {locations : Locations}
    {freeSpace otherFreeSpace : Path → Except SystemError FreeSpace} {tables otherTables : List Char → Tables}
    {unit otherUnit : UInt64} (names : List (List Char))
    (relates : ∀ name entry, BlockEntry.find? files locations.registry name = some entry →
      related (ofEntry { files, freeSpace } locations (tables name) unit entry)
        (ofEntry { files, freeSpace := otherFreeSpace } locations (otherTables name) otherUnit entry)) :
    List.Forall₂ related
      (names.filterMap fun name => ofName? { files, freeSpace } locations (tables name) unit name)
      (names.filterMap fun name =>
        ofName? { files, freeSpace := otherFreeSpace } locations (otherTables name) otherUnit name) := by
  apply List.rel_filterMap _ (List.forall₂_same.mpr fun name _ => Eq.refl name)
  intro name _ same
  cases same
  exact Device.rel_ofName? (relates name)

/-- A host that registers these devices, without hardware behind them, and keeps these two tables. No file system
tells its free space. -/
def Host.ofTables (devices : List String) (mounts partitions : String) : Host where
  files := {
    root := [
      (nameOf "sys", .directory [(nameOf "block", .directory (devices.map registered))]),
      (nameOf "proc", .directory [(nameOf "mounts", fileOf mounts), (nameOf "partitions", fileOf partitions)])]
    workingDirectory := [] }
  freeSpace := fun _ => .error .noSuchEntry
where
  nameOf (name : String) : Name := Text.Utf8.encode name.toList
  fileOf (text : String) : Node := .file (Text.Utf8.encode text.toList)
  registered (device : String) : Name × Node := (nameOf device, .link (.ofString ("../devices/" ++ device)))

/-- A host whose root holds nothing but one directory, with the files of another host in it. -/
def Host.capturedIn (directory : String) (host : Host) : Host where
  files := { root := [(ofTables.nameOf directory, .directory host.files.root)], workingDirectory := [] }
  freeSpace := host.freeSpace

def Locations.captured : Locations where
  registry := .ofString "/captured/sys/block"
  mountTable := .ofString "/captured/proc/mounts"
  partitionTable := .ofString "/captured/proc/partitions"
  udevRecords := .ofString "/captured/run/udev/data"
  legacyUdevRecords := .ofString "/captured/dev/.udev/db"

end BlockInventory
