import BlockInventory.Proofs.CommandLine.Runs
import BlockInventory.Proofs.Inventory.Invariant
import BlockInventory.Proofs.Text.Order
import Mathlib.Algebra.GroupWithZero.Nat

/-!
# The table that the command writes

A run that was not asked for JSON and succeeds writes a heading and the rows of each device: its own and then one for
each of its partitions, in the order of the bytes of their names. What a row shows is written as it is, so a row is a
line of the output exactly where none of the texts in it holds a line feed.
-/

set_option autoImplicit false

namespace BlockInventory

namespace Text

/-- The text is ended by its only line feed. -/
def IsLine (text : List Char) : Prop :=
  ∃ content, '\n' ∉ content ∧ text = content ++ ['\n']

def Ended (text : List Char) : Prop :=
  ∃ content, text = content ++ ['\n']

variable {content : List Char} {rows : List (List Char)}

theorem isLine_append_iff : IsLine (content ++ ['\n']) ↔ '\n' ∉ content := by
  constructor
  · intro line
    obtain ⟨other, absent, same⟩ := line
    rwa [List.append_cancel_right same]
  · intro absent
    exact ⟨content, absent, rfl⟩

theorem count_lineFeed_append (content : List Char) : (content ++ ['\n']).count '\n' = content.count '\n' + 1 :=
  List.count_append

theorem length_le_count_flatten (ended : ∀ row ∈ rows, Ended row) : rows.length ≤ rows.flatten.count '\n' := by
  induction rows with
  | nil => exact Nat.zero_le _
  | cons row rows ih =>
      obtain ⟨⟨content, rfl⟩, others⟩ := List.forall_mem_cons.mp ended
      have fewer := ih others
      rw [List.flatten_cons, List.count_append, count_lineFeed_append, List.length_cons]
      omega

/-- There are as many line feeds as rows exactly when the rows are lines. -/
theorem count_flatten_eq_length_iff (ended : ∀ row ∈ rows, Ended row) :
    rows.flatten.count '\n' = rows.length ↔ ∀ row ∈ rows, IsLine row := by
  induction rows with
  | nil => simp
  | cons row rows ih =>
      obtain ⟨⟨content, rfl⟩, others⟩ := List.forall_mem_cons.mp ended
      have fewer := length_le_count_flatten others
      rw [List.forall_mem_cons, ← ih others, isLine_append_iff, ← List.count_eq_zero, List.flatten_cons,
        List.count_append, count_lineFeed_append, List.length_cons]
      omega

end Text

/-! ## Rows -/

namespace Listing

def deviceRows (device : Device) : List (List Char) :=
  deviceLine device :: device.partitionEntries.map fun (name, partition) => partitionLine name partition

def rows (devices : List Device) : List (List Char) :=
  heading :: devices.flatMap deviceRows

theorem flatten_deviceRows (device : Device) : (deviceRows device).flatten = deviceLines device := by
  rw [deviceRows, List.flatten_cons, ← List.flatMap_def]
  rfl

theorem flatten_rows (devices : List Device) : (rows devices).flatten = ofDevices devices := by
  have eachDevice : List.flatten ∘ deviceRows = deviceLines := funext flatten_deviceRows
  rw [rows, List.flatten_cons, List.flatMap_def, List.flatten_flatten, List.map_map, eachDevice, ← List.flatMap_def]
  rfl

theorem length_rows (devices : List Device) :
    (rows devices).length = 1 + (devices.map fun device => 1 + device.partitionCount).sum := by
  have lengths (device : Device) : (deviceRows device).length = 1 + device.partitionCount := by
    rw [deviceRows, List.length_cons, List.length_map, Nat.add_comm]
    rfl
  rw [rows, List.length_cons, List.length_flatMap, Nat.add_comm]
  simp only [lengths]

section Columns

variable {width value : Nat} {text : List Char} {column : Option String}

@[simp] theorem lineFeed_mem_left : '\n' ∈ left width text ↔ '\n' ∈ text := by
  simp [left]

@[simp] theorem lineFeed_mem_right : '\n' ∈ right width text ↔ '\n' ∈ text := by
  simp [right]

@[simp] theorem lineFeed_not_mem_number : '\n' ∉ number value := by
  intro member
  have isDigit : '\n'.isDigit = true := Text.Numeral.isDigit_of_mem_write member
  cases isDigit

theorem lineFeed_mem_orHyphen : '\n' ∈ orHyphen column ↔ ∃ text, column = some text ∧ '\n' ∈ text.toList := by
  cases column with
  | none => simp [orHyphen]
  | some text => simp [orHyphen]

theorem isLine_line_iff {name driver vendor model serial size partitions : List Char} :
    Text.IsLine (line name driver vendor model serial size partitions) ↔
      '\n' ∉ name ∧ '\n' ∉ driver ∧ '\n' ∉ vendor ∧ '\n' ∉ model ∧ '\n' ∉ serial ∧ '\n' ∉ size ∧ '\n' ∉ partitions := by
  rw [line, Text.isLine_append_iff]
  simp

end Columns

theorem ended_line (name driver vendor model serial size partitions : List Char) :
    Text.Ended (line name driver vendor model serial size partitions) :=
  ⟨_, rfl⟩

theorem isLine_heading : Text.IsLine heading :=
  isLine_line_iff.mpr (by decide +kernel)

theorem ended_of_mem_rows {devices : List Device} : ∀ row ∈ rows devices, Text.Ended row := by
  intro row member
  rcases List.mem_cons.mp member with rfl | below
  · exact ended_line _ _ _ _ _ _ _
  · obtain ⟨device, _, ofDevice⟩ := List.mem_flatMap.mp below
    rcases List.mem_cons.mp ofDevice with rfl | ofPartition
    · exact ended_line _ _ _ _ _ _ _
    · obtain ⟨_, _, rfl⟩ := List.mem_map.mp ofPartition
      exact ⟨_, rfl⟩

end Listing

/-! ## Records -/

namespace Device

/-- No text in the record holds a line feed, its serial number and the names of its partitions apart. -/
structure Unbroken (device : Device) : Prop where
  name : '\n' ∉ device.name.toList
  driver : ∀ driver, device.driver = some driver → '\n' ∉ driver.toList
  vendor : ∀ vendor, device.vendor = some vendor → '\n' ∉ vendor.toList
  model : ∀ model, device.model = some model → '\n' ∉ model.toList
  mountPoint : ∀ entry ∈ device.partitionEntries, ∀ mountPoint, entry.2.mountPoint = some mountPoint →
    '\n' ∉ mountPoint.toList

/-- What is read from single lines holds no line feed. -/
structure KeysUnbroken (device : Device) : Prop where
  serial : ∀ serial, device.serial = some serial → '\n' ∉ serial.toList
  names : ∀ entry ∈ device.partitionEntries, '\n' ∉ entry.1.toList

theorem isLine_deviceLine_iff {device : Device} (keys : device.KeysUnbroken) :
    Text.IsLine (Listing.deviceLine device) ↔
      '\n' ∉ device.name.toList ∧ (∀ driver, device.driver = some driver → '\n' ∉ driver.toList) ∧
        (∀ vendor, device.vendor = some vendor → '\n' ∉ vendor.toList) ∧
        ∀ model, device.model = some model → '\n' ∉ model.toList := by
  have serial : '\n' ∉ Listing.orHyphen device.serial := by
    intro member
    obtain ⟨serial, told, inside⟩ := Listing.lineFeed_mem_orHyphen.mp member
    exact keys.serial serial told inside
  rw [Listing.deviceLine, Listing.isLine_line_iff]
  simp only [serial, Listing.lineFeed_not_mem_number, Listing.lineFeed_mem_orHyphen, not_exists, not_and,
    not_false_eq_true, and_true]

theorem isLine_partitionLine_iff {name : String} {partition : MountedPartition} (unbroken : '\n' ∉ name.toList) :
    Text.IsLine (Listing.partitionLine name partition) ↔
      ∀ mountPoint, partition.mountPoint = some mountPoint → '\n' ∉ mountPoint.toList := by
  rw [Listing.partitionLine, Text.isLine_append_iff]
  simp [Listing.lineFeed_mem_orHyphen, unbroken]

theorem isLine_deviceRows_iff {device : Device} (keys : device.KeysUnbroken) :
    (∀ row ∈ Listing.deviceRows device, Text.IsLine row) ↔ device.Unbroken := by
  have partitions : (∀ row ∈ device.partitionEntries.map fun (name, partition) => Listing.partitionLine name partition,
        Text.IsLine row) ↔
      ∀ entry ∈ device.partitionEntries, ∀ mountPoint, entry.2.mountPoint = some mountPoint →
        '\n' ∉ mountPoint.toList := by
    rw [List.forall_mem_map]
    exact forall₂_congr fun entry member => isLine_partitionLine_iff (keys.names entry member)
  rw [Listing.deviceRows, List.forall_mem_cons, isLine_deviceLine_iff keys, partitions]
  constructor
  · intro lines
    obtain ⟨⟨name, driver, vendor, model⟩, mountPoint⟩ := lines
    exact ⟨name, driver, vendor, model, mountPoint⟩
  · intro unbroken
    exact ⟨⟨unbroken.name, unbroken.driver, unbroken.vendor, unbroken.model⟩, unbroken.mountPoint⟩

theorem keysUnbroken_ofEntry {host : Host} {locations : Locations} {unit : UInt64} {mounts partitions : List Char}
    {entry : BlockEntry} : (ofEntry host locations (.ofTexts mounts partitions) unit entry).KeysUnbroken where
  serial := by
    intro serial told
    exact (serial_ofEntry told).2.2
  names := by
    intro entry member inside
    obtain ⟨_, field, first, _⟩ := mem_partitionEntries_ofEntry_iff.mp member
    obtain ⟨line, _, further, shape⟩ := first.exists_mem
    have isField : deviceDirectory ++ entry.1.toList ∈ Text.fields line := shape ▸ List.mem_cons_self
    exact Text.lineFeed_not_mem_of_isBlank (fun _ => Text.isBlank_of_mem_field isField) (List.mem_append_right _ inside)

theorem keysAscend_partitionEntries (device : Device) : KeysAscend device.partitionEntries := by
  unfold partitionEntries
  split
  next partitions _ => exact partitions.ascend
  next => exact .nil

end Device

theorem KeysAscend.encoded {entries : List (String × MountedPartition)} (ascend : KeysAscend entries) :
    (entries.map (·.1)).Pairwise fun name later => Text.Utf8.encode name.toList < Text.Utf8.encode later.toList := by
  refine List.pairwise_map.mpr (ascend.imp ?_)
  intro entry later smaller
  exact Text.Utf8.encode_lt_encode (String.lt_iff.mp smaller)

theorem Listing.isLine_rows_iff {devices : List Device} (keys : ∀ device ∈ devices, device.KeysUnbroken) :
    (∀ row ∈ rows devices, Text.IsLine row) ↔ ∀ device ∈ devices, device.Unbroken := by
  rw [rows, List.forall_mem_cons, and_iff_right isLine_heading]
  simp only [List.mem_flatMap, forall_exists_index, and_imp]
  constructor
  · intro lines device member
    exact (Device.isLine_deviceRows_iff (keys device member)).mp fun row ofDevice => lines row device member ofDevice
  · intro unbroken row device member ofDevice
    exact (Device.isLine_deviceRows_iff (keys device member)).mpr (unbroken device member) row ofDevice

theorem Host.keysUnbroken_of_inventory {host : Host} {locations : Locations} {config : Config} {devices : List Device}
    (success : host.inventory locations config = .ok devices) : ∀ device ∈ devices, device.KeysUnbroken := by
  obtain ⟨names, mounts, partitions, _, _, _, rfl⟩ := Host.inventory_eq_ok_iff.mp success
  intro device member
  obtain ⟨_, _, _, _, _, rfl⟩ := Host.mem_devices_iff.mp member
  exact Device.keysUnbroken_ofEntry

/-! ## Output -/

namespace CommandLine

/-- A successful run that was not asked for JSON writes a heading and for each device its row and then one for each of
its partitions, these in the order of the bytes of their names. The output has as many line feeds as rows, and then
each row is a line, exactly when no text in a record holds a line feed. -/
theorem table_output {host : Host} {arguments : List String} {parsed : Arguments}
    (accepted : Request.ofArguments arguments = .ok (.list parsed)) (notAsked : "--json" ∉ arguments)
    (success : (run host arguments).status = 0) :
    ∃ unit devices, parsed.SelectsUnit host.files unit ∧
      host.inventory
        { registry := (Path.ofString parsed.root).join (.ofString "sys/block")
          mountTable := (Path.ofString parsed.root).join (.ofString "proc/mounts")
          partitionTable := (Path.ofString parsed.root).join (.ofString "proc/partitions")
          udevRecords := (Path.ofString parsed.root).join (.ofString "run/udev/data")
          legacyUdevRecords := (Path.ofString parsed.root).join (.ofString "dev/.udev/db") }
        { unit } = .ok devices ∧
      (run host arguments).output = String.ofList (Listing.rows devices).flatten ∧
      (Listing.rows devices).length = 1 + (devices.map fun device => 1 + device.partitionCount).sum ∧
      (∀ device ∈ devices, device.partitionNames.Pairwise fun name later =>
        Text.Utf8.encode name.toList < Text.Utf8.encode later.toList) ∧
      ((∀ row ∈ Listing.rows devices, Text.IsLine row) ↔ ∀ device ∈ devices, device.Unbroken) ∧
      ((run host arguments).output.toList.count '\n' = (Listing.rows devices).length ↔
        ∀ device ∈ devices, device.Unbroken) := by
  have plain : ¬parsed.json = true := by
    rw [(readArguments_eq_ok_list_iff.mp accepted).json_iff]
    simpa using notAsked
  have isRun : run host arguments = parsed.run host := by rw [run, accepted]
  rw [isRun] at success ⊢
  obtain ⟨devices, made⟩ := Arguments.status_run_eq_zero_iff.mp success
  obtain ⟨unit, selected, inventoried⟩ := Arguments.devices_eq_ok_iff.mp made
  have output := Arguments.output_run made
  rw [Arguments.render, if_neg plain, ← Listing.flatten_rows] at output
  have lines := Listing.isLine_rows_iff (Host.keysUnbroken_of_inventory inventoried)
  refine ⟨unit, devices, selected, inventoried, output, Listing.length_rows devices, ?_, lines, ?_⟩
  · exact fun device _ => device.keysAscend_partitionEntries.encoded
  · rw [output, String.toList_ofList, Text.count_flatten_eq_length_iff Listing.ended_of_mem_rows, lines]

/-- A host whose mount table spells a line feed in a mount point. -/
def brokenHost : Host :=
  .ofTables ["sda"] "/dev/sda1 /mnt\\012x ext4\n" ""

def brokenDisk : Device where
  name := "sda"
  partitions := some (.ofLast [("sda1", { mountPoint := some "/mnt\nx" })])

theorem table_output_broken :
    Request.ofArguments [] = .ok (.list {}) ∧ (run brokenHost []).status = 0 ∧
      (run brokenHost []).output = String.ofList (Listing.rows [brokenDisk]).flatten ∧
      (Listing.rows [brokenDisk]).length = 3 ∧ (run brokenHost []).output.toList.count '\n' ≠ 3 := by
  have accepted : Request.ofArguments [] = .ok (.list {}) := by decide +kernel
  have success : (run brokenHost []).status = 0 := by decide +kernel
  have known : brokenHost.inventory (.under (.ofString "/")) { unit := Size.defaultUnit } = .ok [brokenDisk] := by
    decide +kernel
  obtain ⟨unit, devices, selected, inventoried, output, length, _, _, feeds⟩ :=
    table_output accepted List.not_mem_nil success
  cases selected with
  | given own => cases own
  | loaded _ file => cases file
  | standard _ _ =>
      obtain rfl := Except.ok.inj (known.symm.trans inventoried)
      have three : (Listing.rows [brokenDisk]).length = 3 := length.trans (by decide +kernel)
      refine ⟨accepted, success, output, three, ?_⟩
      rw [← three, ne_eq, feeds]
      intro unbroken
      have mountPoint := (unbroken brokenDisk List.mem_cons_self).mountPoint _ List.mem_cons_self _ rfl
      exact mountPoint (by decide +kernel)

end CommandLine

end BlockInventory
