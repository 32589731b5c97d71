import BlockInventory.Proofs.FileTree.Entries
import BlockInventory.Proofs.Inventory.Selection
import Mathlib.Data.List.Nodup

/-!
# Names of records

Registered entries are told apart by their bytes, records by the decoded names, under which the entries are looked up
again. So an entry whose name is no UTF-8 is reported under the name of another entry, if at all, and a device is
reported twice exactly when there is such an entry.
-/

set_option autoImplicit false

namespace BlockInventory

/-- Names as a directory holds them. -/
structure ProperNames (names : List Name) : Prop where
  nonempty : ∀ name ∈ names, name ≠ []
  slashFree : ∀ name ∈ names, Path.slash ∉ name
  distinct : names.Nodup

theorem BlockEntry.Reported.mem_entries {files : FileTree} {registry : Path} {entries : List Name} {entry : Name}
    (reported : Reported files registry (Text.Utf8.decodeLossy entry)) (listed : files.list registry = .ok entries)
    (nonempty : entry ≠ []) (slashFree : Path.slash ∉ entry) :
    Text.Utf8.encode (Text.Utf8.decodeLossy entry) ∈ entries := by
  obtain ⟨target, read, _⟩ := reported.linked
  have nameNonempty : Text.Utf8.encode (Text.Utf8.decodeLossy entry) ≠ [] :=
    Text.Utf8.encode_ne_nil (Text.Utf8.decodeLossy_ne_nil nonempty)
  have nameSlashFree : Path.slash ∉ Text.Utf8.encode (Text.Utf8.decodeLossy entry) := by
    have ascii : Text.Utf8.IsAscii '/' := by decide
    intro member
    exact slashFree ((Text.Utf8.mem_decodeLossy_iff ascii entry).mp ((Text.Utf8.mem_encode_iff ascii _).mp member))
  exact FileTree.mem_of_readLink_join listed nameNonempty nameSlashFree read

/-- The name that a record would have for an entry. -/
def recordName (entry : Name) : String := String.ofList (Text.Utf8.decodeLossy entry)

theorem Host.names_eq_map_recordName {host : Host} {locations : Locations} {config : Config} {devices : List Device}
    {entries : List Name} (success : host.inventory locations config = .ok devices)
    (listed : host.files.list locations.registry = .ok entries) :
    devices.map (·.name) =
      (entries.filter fun entry =>
        BlockEntry.Reported host.files locations.registry (Text.Utf8.decodeLossy entry)).map recordName := by
  obtain ⟨names, _, _, registered, _, _, rfl⟩ := Host.inventory_eq_ok_iff.mp success
  obtain ⟨_, listedAgain, rfl⟩ := registeredNames_eq_ok_iff.mp registered
  cases listed.symm.trans listedAgain
  rw [Host.map_name_devices, List.filter_map, List.map_map]
  rfl

/-- The records of an inventory have different names exactly when no entry whose name is no UTF-8 is decoded to the
name of a record. -/
theorem Host.nodup_names_iff {host : Host} {locations : Locations} {config : Config} {devices : List Device}
    {entries : List Name} (success : host.inventory locations config = .ok devices)
    (listed : host.files.list locations.registry = .ok entries) (proper : ProperNames entries) :
    (devices.map (·.name)).Nodup ↔
      ∀ entry ∈ entries, recordName entry ∈ devices.map (·.name) → ∃ text, Text.Utf8.encode text = entry := by
  have sameName {left right : Name} :
      recordName left = recordName right ↔ Text.Utf8.decodeLossy left = Text.Utf8.decodeLossy right :=
    String.ofList_inj
  rw [Host.names_eq_map_recordName success listed, List.nodup_map_iff_inj_on (proper.distinct.filter _)]
  simp only [List.mem_map, List.mem_filter, decide_eq_true_eq, sameName]
  constructor
  · intro injective entry member named
    obtain ⟨other, ⟨_, reported⟩, same⟩ := named
    -- The record is that of the entry to whose name the other is decoded.
    rw [same] at reported
    have standsFor : Text.Utf8.encode (Text.Utf8.decodeLossy entry) ∈ entries :=
      reported.mem_entries listed (proper.nonempty entry member) (proper.slashFree entry member)
    have decoded := Text.Utf8.decodeLossy_encode (Text.Utf8.decodeLossy entry)
    exact ⟨_, injective _ ⟨standsFor, decoded.symm ▸ reported⟩ _ ⟨member, reported⟩ decoded⟩
  · intro text left leftReported right rightReported same
    obtain ⟨leftText, rfl⟩ := text left leftReported.1 ⟨left, leftReported, rfl⟩
    obtain ⟨rightText, rfl⟩ := text right rightReported.1 ⟨right, rightReported, rfl⟩
    rw [Text.Utf8.decodeLossy_encode, Text.Utf8.decodeLossy_encode] at same
    rw [same]

/-- A host on which the name of a second link is the name of the first, but for a byte in the place of the
replacement character. -/
def lookAlikeHost : Host where
  files := {
    root := [
      (nameOf "sys", .directory [
        (nameOf "block", .directory [
          (nameOf "sd\uFFFD", .link (.ofString "../devices/sda")),
          (nameOf "sd" ++ [0xFF], .link (.ofString "../devices/sdb"))])]),
      (nameOf "proc", .directory [(nameOf "mounts", .file []), (nameOf "partitions", .file [])])]
    workingDirectory := [] }
  freeSpace := fun _ => .error .noSuchEntry
where
  nameOf (name : String) : Name := Text.Utf8.encode name.toList

/-- The second link is reported under the name of the first. -/
theorem Host.nodup_names_iff_lookAlike :
    lookAlikeHost.inventory .live {} = .ok [{ name := "sd\uFFFD" }, { name := "sd\uFFFD" }] ∧
      ¬([{ name := "sd\uFFFD" }, { name := "sd\uFFFD" }].map fun device : Device => device.name).Nodup := by
  have success : lookAlikeHost.inventory .live {} = .ok [{ name := "sd\uFFFD" }, { name := "sd\uFFFD" }] := by
    decide +kernel
  have listed : lookAlikeHost.files.list Locations.live.registry =
      .ok [Text.Utf8.encode "sd\uFFFD".toList, [0x73, 0x64, 0xFF]] := by decide +kernel
  have proper : ProperNames [Text.Utf8.encode "sd\uFFFD".toList, [0x73, 0x64, 0xFF]] :=
    ⟨by decide +kernel, by decide +kernel, by decide +kernel⟩
  refine ⟨success, ?_⟩
  rw [Host.nodup_names_iff success listed proper]
  intro allText
  obtain ⟨text, encoded⟩ := allText [0x73, 0x64, 0xFF] (by simp) (by decide +kernel)
  have decoded : text = Text.Utf8.decodeLossy [0x73, 0x64, 0xFF] := by
    rw [← encoded, Text.Utf8.decodeLossy_encode]
  subst decoded
  revert encoded
  decide +kernel

end BlockInventory
