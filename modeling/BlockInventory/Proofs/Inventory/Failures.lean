import BlockInventory.Proofs.Inventory.Records
import BlockInventory.Proofs.Text.Decoding

/-!
# How an inventory fails

The registry has to be a directory that can be listed, and each of the two tables a file whose bytes are those of a
text. An inventory fails as the first of these sources that is not so. Nothing else that a host withholds makes it
fail.
-/

set_option autoImplicit false

namespace BlockInventory

/-! ## Texts of files -/

namespace FileTree

variable {files : FileTree} {path : Path} {text : List Char} {cause : AccessError}

/-- Why a file has no text: no bytes can be read of it, or they are those of no text. -/
inductive NoText (files : FileTree) (path : Path) : AccessError → Prop where
  | unreadable {cause : AccessError} : files.readBytes path = .error cause → NoText files path cause
  | notText {bytes : List UInt8} : files.readBytes path = .ok bytes → (∀ text, Text.Utf8.encode text ≠ bytes) →
      NoText files path .notText

theorem readText_eq_ok_iff : files.readText path = .ok text ↔ files.readBytes path = .ok (Text.Utf8.encode text) := by
  rw [readText, bind_eq_ok_iff]
  constructor
  · intro success
    obtain ⟨bytes, read, decoded⟩ := success
    split at decoded
    next held =>
      cases decoded
      rw [Text.Utf8.decode?_eq_some_iff.mp held]
      exact read
    next => cases decoded
  · intro read
    refine ⟨_, read, ?_⟩
    rw [Text.Utf8.decode?_encode]

theorem readText_eq_error_iff : files.readText path = .error cause ↔ files.NoText path cause := by
  rw [readText, bind_eq_error_iff]
  constructor
  · intro failed
    obtain unreadable | ⟨bytes, read, undecoded⟩ := failed
    · exact .unreadable unreadable
    · split at undecoded
      next => cases undecoded
      next notText =>
        cases undecoded
        exact .notText read (Text.Utf8.decode?_eq_none_iff.mp notText)
  · intro noText
    cases noText with
    | unreadable failed => exact .inl failed
    | notText read notText =>
        apply Or.inr
        refine ⟨_, read, ?_⟩
        rw [Text.Utf8.decode?_eq_none_iff.mpr notText]

end FileTree

/-! ## The sources of an inventory -/

structure SourcesReadable (files : FileTree) (locations : Locations) : Prop where
  registry : ∃ names, files.list locations.registry = .ok names
  mountTable : ∃ mounts, files.readBytes locations.mountTable = .ok (Text.Utf8.encode mounts)
  partitionTable : ∃ partitions, files.readBytes locations.partitionTable = .ok (Text.Utf8.encode partitions)

/-- The failure of a source, with its path and the cause, if the sources before it can be read. The sources after it
may be in any state. -/
inductive FirstFailure (files : FileTree) (locations : Locations) : InventoryError → Prop where
  | registry {cause : AccessError} : files.list locations.registry = .error cause →
      FirstFailure files locations (.registry locations.registry cause)
  | mountTable {names : List Name} {cause : AccessError} : files.list locations.registry = .ok names →
      files.NoText locations.mountTable cause → FirstFailure files locations (.mountTable locations.mountTable cause)
  | partitionTable {names : List Name} {mounts : List Char} {cause : AccessError} :
      files.list locations.registry = .ok names →
      files.readBytes locations.mountTable = .ok (Text.Utf8.encode mounts) →
      files.NoText locations.partitionTable cause →
      FirstFailure files locations (.partitionTable locations.partitionTable cause)

section Sources

variable {files : FileTree} {locations : Locations} {failure : InventoryError}

theorem Sources.read_isOk_iff :
    (∃ sources, Sources.read files locations = .ok sources) ↔ SourcesReadable files locations := by
  constructor
  · intro success
    obtain ⟨sources, read⟩ := success
    obtain ⟨registered, readTables⟩ := Sources.read_eq_ok_iff.mp read
    obtain ⟨names, listed, _⟩ := map_eq_ok_iff.mp registered
    obtain ⟨mounts, partitions, readMounts, readPartitions, _⟩ := Tables.read_eq_ok_iff.mp readTables
    constructor
    · exact ⟨names, listed⟩
    · exact ⟨mounts, FileTree.readText_eq_ok_iff.mp readMounts⟩
    · exact ⟨partitions, FileTree.readText_eq_ok_iff.mp readPartitions⟩
  · intro readable
    obtain ⟨⟨names, listed⟩, ⟨mounts, mountBytes⟩, ⟨partitions, partitionBytes⟩⟩ := readable
    have registered : registeredNames files locations.registry = .ok (names.map Text.Utf8.decodeLossy) :=
      map_eq_ok_iff.mpr ⟨names, listed, rfl⟩
    have readTables := Tables.read_eq_ok_iff.mpr
      ⟨mounts, partitions, FileTree.readText_eq_ok_iff.mpr mountBytes, FileTree.readText_eq_ok_iff.mpr partitionBytes, rfl⟩
    exact ⟨⟨_, _⟩, Sources.read_eq_ok_iff.mpr ⟨registered, readTables⟩⟩

theorem Tables.read_eq_error_iff :
    Tables.read files locations = .error failure ↔
      (∃ cause, files.NoText locations.mountTable cause ∧ .mountTable locations.mountTable cause = failure) ∨
        ∃ mounts cause, files.readBytes locations.mountTable = .ok (Text.Utf8.encode mounts) ∧
          files.NoText locations.partitionTable cause ∧ .partitionTable locations.partitionTable cause = failure := by
  simp only [Tables.read, bind_eq_error_iff, mapError_eq_error_iff, mapError_eq_ok_iff, FileTree.readText_eq_error_iff,
    FileTree.readText_eq_ok_iff, reduceCtorEq, and_false, exists_false, or_false, exists_and_left]

theorem Sources.read_eq_error_iff : Sources.read files locations = .error failure ↔ FirstFailure files locations failure := by
  simp only [Sources.read, registeredNames, bind_eq_error_iff, mapError_eq_error_iff, mapError_eq_ok_iff, map_eq_error_iff,
    map_eq_ok_iff, Tables.read_eq_error_iff, reduceCtorEq, and_false, exists_false, or_false]
  constructor
  · intro failed
    obtain ⟨cause, unlisted, rfl⟩ | ⟨_, ⟨names, listed, _⟩, mounts | partitions⟩ := failed
    · exact .registry unlisted
    · obtain ⟨cause, noText, rfl⟩ := mounts
      exact .mountTable listed noText
    · obtain ⟨mounts, cause, read, noText, rfl⟩ := partitions
      exact .partitionTable listed read noText
  · intro first
    cases first with
    | registry unlisted => exact .inl ⟨_, unlisted, rfl⟩
    | mountTable listed noText => exact .inr ⟨_, ⟨_, listed, rfl⟩, .inl ⟨_, noText, rfl⟩⟩
    | partitionTable listed read noText => exact .inr ⟨_, ⟨_, listed, rfl⟩, .inr ⟨_, _, read, noText, rfl⟩⟩

end Sources

/-- An inventory succeeds if its three sources can be read, whatever else the host holds, and fails as the first of
them that cannot. -/
theorem Host.inventory_failures (host : Host) (locations : Locations) (config : Config) :
    ((∃ devices, host.inventory locations config = .ok devices) ↔ SourcesReadable host.files locations) ∧
      (∀ failure, host.inventory locations config = .error failure ↔ FirstFailure host.files locations failure) ∧
      ((∃ devices, host.inventory locations config = .ok devices ∧ host.inventoryOrEmpty locations config = devices) ∨
        ∃ failure, host.inventory locations config = .error failure ∧ host.inventoryOrEmpty locations config = []) := by
  rw [inventoryOrEmpty, Host.inventory_eq_map_read]
  refine ⟨?_, ?_, ?_⟩
  · rw [← Sources.read_isOk_iff]
    constructor
    · intro success
      obtain ⟨_, recorded⟩ := success
      obtain ⟨sources, read, _⟩ := map_eq_ok_iff.mp recorded
      exact ⟨sources, read⟩
    · intro success
      obtain ⟨sources, read⟩ := success
      exact ⟨_, map_eq_ok_iff.mpr ⟨sources, read, rfl⟩⟩
  · intro failure
    rw [map_eq_error_iff, Sources.read_eq_error_iff]
  · cases Sources.read host.files locations with
    | error failure => exact .inr ⟨failure, rfl, rfl⟩
    | ok sources => exact .inl ⟨_, rfl, rfl⟩

/-- Neither a dangling link nor a row that is cut short makes an inventory fail. -/
example : (Host.ofTables ["sda"] "/dev/sda1\n" "8 1\n").inventory .live {} = .ok [{ name := "sda" }] := by
  decide +kernel

end BlockInventory
