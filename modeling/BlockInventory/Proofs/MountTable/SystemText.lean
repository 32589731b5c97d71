import BlockInventory.Proofs.Tables

/-!
# Mount tables as the system writes them

The system writes a line for each mounted file system and escapes space, tab, line feed and backslash in mount points.
Every other blank character stands as it is and ends the field in which it is read, so the table that is read is the
one that was written exactly when no mount point holds such a character.
-/

set_option autoImplicit false

namespace BlockInventory.MountTable

/-- A mounted device as the system knows it. -/
structure MountedDevice where
  name : List Char
  mountPoint : List Char
  name_ne_nil : name ≠ []
  name_alphanumeric : ∀ character ∈ name, character.isAlphanum = true
  mountPoint_ne_nil : mountPoint ≠ []

/-- A character of a mount point as the system writes it. -/
def systemEscape (character : Char) : List Char :=
  if character = ' ' then ['\\', '0', '4', '0']
  else if character = '\t' then ['\\', '0', '1', '1']
  else if character = '\n' then ['\\', '0', '1', '2']
  else if character = '\\' then ['\\', '1', '3', '4']
  else [character]

/-- What stands in a line behind the mount point and a space. -/
def lineEnd : List Char := "ext4 rw 0 0".toList

namespace MountedDevice

def source (mounted : MountedDevice) : List Char :=
  deviceDirectory ++ mounted.name

def line (mounted : MountedDevice) : List Char :=
  mounted.source ++ ' ' :: (mounted.mountPoint.flatMap systemEscape ++ ' ' :: lineEnd)

end MountedDevice

/-- The table of these devices as the system writes it. -/
def systemText (devices : List MountedDevice) : List Char :=
  devices.flatMap fun mounted => mounted.line ++ ['\n']

/-- A blank character that the system does not escape. -/
def isBareBlank (character : Char) : Bool :=
  Text.isBlank character && !(character == ' ' || character == '\t' || character == '\n')

/-- What is read of a mount point: its first run of characters between bare blanks, or the field behind it if it holds
nothing else. -/
def readMountPoint (mountPoint : List Char) : List Char :=
  ((mountPoint.splitOnP isBareBlank).filter (!·.isEmpty)).headD "ext4".toList

/-! ## Escaped mount points -/

private theorem splitOnP_solid_append {p : Char → Bool} {solid : List Char}
    (plain : ∀ character ∈ solid, p character = false) (text : List Char) :
    (solid ++ text).splitOnP p = (text.splitOnP p).modifyHead (solid ++ ·) := by
  induction solid with
  | nil =>
      rw [List.nil_append]
      cases text.splitOnP p with
      | nil => rfl
      | cons first rest => rfl
  | cons head solid ih =>
      rw [List.cons_append, List.splitOnP_cons_eq_if_modifyHead, plain head List.mem_cons_self,
        ih fun character member => plain character (List.mem_cons_of_mem _ member)]
      cases text.splitOnP p with
      | nil => rfl
      | cons first rest => rfl

private theorem isBlank_systemEscape {character : Char} (escaped : isBareBlank character = false) :
    ∀ written ∈ systemEscape character, Text.isBlank written = false := by
  unfold systemEscape
  split
  · simp [Text.isBlank, Text.blankRanges]
  · split
    · simp [Text.isBlank, Text.blankRanges]
    · split
      · simp [Text.isBlank, Text.blankRanges]
      · split
        · simp [Text.isBlank, Text.blankRanges]
        next space tab lineFeed _ =>
          intro written member
          rw [List.mem_singleton.mp member]
          simpa [isBareBlank, space, tab, lineFeed] using escaped

private theorem systemEscape_bareBlank {character : Char} (bare : isBareBlank character = true) :
    systemEscape character = [character] := by
  have backslash : character ≠ '\\' := by
    intro same
    subst same
    cases bare
  simp only [isBareBlank, Bool.and_eq_true, Bool.not_eq_true', Bool.or_eq_false_iff, beq_eq_false_iff_ne] at bare
  obtain ⟨_, ⟨space, tab⟩, lineFeed⟩ := bare
  rw [systemEscape, if_neg space, if_neg tab, if_neg lineFeed, if_neg backslash]

private theorem systemEscape_ne_nil (character : Char) : systemEscape character ≠ [] := by
  unfold systemEscape
  repeat' split
  all_goals exact List.cons_ne_nil _ _

private theorem lineFeed_not_mem_systemEscape (character : Char) : '\n' ∉ systemEscape character := by
  unfold systemEscape
  split
  · decide
  · split
    · decide
    · split
      · decide
      next lineFeed =>
        split
        · decide
        · intro member
          exact lineFeed (List.mem_singleton.mp member).symm

/-- The pieces of an escaped mount point are the escaped pieces between bare blanks. -/
theorem splitOnP_systemEscape (mountPoint : List Char) :
    (mountPoint.flatMap systemEscape).splitOnP Text.isBlank =
      (mountPoint.splitOnP isBareBlank).map (·.flatMap systemEscape) := by
  induction mountPoint with
  | nil => rfl
  | cons character rest ih =>
      rw [List.flatMap_cons, List.splitOnP_cons_eq_if_modifyHead]
      obtain ⟨first, others, shape⟩ := List.exists_cons_of_ne_nil (List.splitOnP_ne_nil isBareBlank rest)
      cases bare : isBareBlank character with
      | true =>
          have blank : Text.isBlank character = true := (Bool.and_eq_true _ _ ▸ bare).1
          rw [systemEscape_bareBlank bare, List.singleton_append, List.splitOnP_cons_eq_if_modifyHead,
            if_pos blank, ih]
          rfl
      | false =>
          rw [splitOnP_solid_append (isBlank_systemEscape bare), ih, shape]
          rfl

theorem decode_systemEscape (character : Char) (rest : List UInt8) :
    OctalField.decode (Text.Utf8.encode (systemEscape character) ++ rest) =
      Text.Utf8.encodeChar character ++ OctalField.decode rest := by
  unfold systemEscape
  split
  next space => rw [space]; exact OctalField.decode_escaped rest (by decide)
  next =>
    split
    next tab => rw [tab]; exact OctalField.decode_escaped rest (by decide)
    next =>
      split
      next lineFeed => rw [lineFeed]; exact OctalField.decode_escaped rest (by decide)
      next =>
        split
        next backslash => rw [backslash]; exact OctalField.decode_escaped rest (by decide)
        next plain =>
          have absent : OctalField.backslash ∉ Text.Utf8.encodeChar character := by
            rw [Text.Utf8.mem_encodeChar_iff (by decide)]
            exact fun same => plain (Char.toNat_inj.mp same)
          rw [Text.Utf8.encode, List.flatMap_singleton, OctalField.decode_append absent]

theorem decodeField_systemEscape (text : List Char) : decodeField (text.flatMap systemEscape) = text := by
  have decoded : OctalField.decode (Text.Utf8.encode (text.flatMap systemEscape)) = Text.Utf8.encode text := by
    induction text with
    | nil => rfl
    | cons character rest ih =>
        rw [List.flatMap_cons, Text.Utf8.encode_append, decode_systemEscape, ih]
        rfl
  rw [decodeField_eq_decode, decoded, Text.Utf8.decodeLossy_encode]

/-! ## Lines -/

namespace MountedDevice

variable (mounted : MountedDevice)

theorem isBlank_source : ∀ character ∈ mounted.source, Text.isBlank character = false := by
  intro character member
  rcases List.mem_append.mp member with inDirectory | inName
  · exact isBlank_deviceDirectory character inDirectory
  · exact Text.isBlank_of_isAlphanum (mounted.name_alphanumeric character inName)

theorem fields_line :
    Text.fields mounted.line = mounted.source ::
      (((mounted.mountPoint.splitOnP isBareBlank).filter (!·.isEmpty)).map (·.flatMap systemEscape) ++
        ["ext4".toList, "rw".toList, "0".toList, "0".toList]) := by
  have source : Text.fields mounted.source = [mounted.source] :=
    Text.fields_eq_singleton (List.append_ne_nil_of_left_ne_nil (List.cons_ne_nil _ _) _) mounted.isBlank_source
  have nonempty : (fun piece : List Char => !(piece.flatMap systemEscape).isEmpty) = (!·.isEmpty) := by
    funext piece
    cases piece with
    | nil => rfl
    | cons character rest => simp [systemEscape_ne_nil]
  rw [line, Text.fields_append_cons (by decide), Text.fields_append_cons (by decide), source,
    Text.fields, splitOnP_systemEscape, List.filter_map]
  simp only [Function.comp_def, nonempty]
  rfl

theorem ofLine?_line :
    ofLine? mounted.line =
      some (String.ofList mounted.source, String.ofList (readMountPoint mounted.mountPoint)) := by
  rw [ofLine?_eq_some_iff, String.toList_ofList]
  refine ⟨List.prefix_append _ _, ?_⟩
  have shape := mounted.fields_line
  rw [readMountPoint]
  cases pieces : (mounted.mountPoint.splitOnP isBareBlank).filter (!·.isEmpty) with
  | nil =>
      rw [pieces] at shape
      exact ⟨_, ⟨_, shape⟩, congrArg String.ofList (decodeField_systemEscape "ext4".toList)⟩
  | cons piece others =>
      rw [pieces] at shape
      exact ⟨_, ⟨_, shape⟩, congrArg String.ofList (decodeField_systemEscape piece)⟩

theorem lineFeed_not_mem_line : '\n' ∉ mounted.line := by
  simp only [line, List.mem_append, List.mem_cons, List.mem_flatMap, not_or, not_exists, not_and]
  refine ⟨?_, by decide, ?_, by decide, by decide⟩
  · intro member
    have solid := mounted.isBlank_source _ member
    revert solid
    decide
  · intro character _ member
    exact absurd member (lineFeed_not_mem_systemEscape character)

end MountedDevice

theorem splitOn_systemText (devices : List MountedDevice) :
    (systemText devices).splitOn '\n' = devices.map (·.line) ++ [[]] := by
  induction devices with
  | nil => rfl
  | cons mounted devices ih =>
      rw [systemText, List.flatMap_cons, List.append_assoc, List.singleton_append,
        List.splitOn_append_cons_self_of_not_mem mounted.lineFeed_not_mem_line, List.map_cons, List.cons_append]
      exact congrArg (mounted.line :: ·) ih

/-- Of a table that the system wrote, each source is read with what is read of its mount point. -/
theorem get?_ofText_systemText {devices : List MountedDevice} (distinct : (devices.map (·.source)).Nodup)
    {source mountPoint : String} :
    (ofText (systemText devices)).get? source = some mountPoint ↔
      ∃ mounted ∈ devices, String.ofList mounted.source = source ∧
        String.ofList (readMountPoint mounted.mountPoint) = mountPoint := by
  have entries : ((systemText devices).splitOn '\n').filterMap ofLine? =
      devices.map fun mounted =>
        (String.ofList mounted.source, String.ofList (readMountPoint mounted.mountPoint)) := by
    rw [splitOn_systemText, List.filterMap_append, List.filterMap_map]
    simp only [Function.comp_def, MountedDevice.ofLine?_line, List.filterMap_eq_map']
    exact List.append_nil _
  have keys : ((devices.map fun mounted =>
      (String.ofList mounted.source, String.ofList (readMountPoint mounted.mountPoint))).map (·.1)).Nodup := by
    rw [List.map_map, List.Nodup, List.pairwise_map]
    exact (List.pairwise_map.mp distinct).imp fun different same => different (String.ofList_injective same)
  rw [ofText, SortedMap.get?_ofFirst, entries, lookup_eq_some_iff_mem keys, List.mem_map]
  simp only [Prod.mk.injEq]

theorem readMountPoint_eq_self_iff {mountPoint : List Char} (nonempty : mountPoint ≠ []) :
    readMountPoint mountPoint = mountPoint ↔ ∀ character ∈ mountPoint, isBareBlank character = false := by
  constructor
  · intro same
    rw [← same, readMountPoint]
    cases pieces : (mountPoint.splitOnP isBareBlank).filter (!·.isEmpty) with
    | nil => simp [isBareBlank, Text.isBlank, Text.blankRanges]
    | cons piece others =>
        have member : piece ∈ mountPoint.splitOnP isBareBlank :=
          (List.mem_filter.mp (pieces ▸ List.mem_cons_self)).1
        exact fun character inside => Text.not_mem_of_mem_splitOnP member inside
  · intro covered
    rw [readMountPoint, List.splitOnP_eq_singleton covered]
    simp [nonempty]

/-- The table that is read is the one that the system wrote exactly when every blank character in a mount point is a
space, a tab or a line feed. -/
theorem ofText_systemText_iff {devices : List MountedDevice} (distinct : (devices.map (·.source)).Nodup) :
    (∀ source mountPoint, (ofText (systemText devices)).get? source = some mountPoint ↔
      ∃ mounted ∈ devices, String.ofList mounted.source = source ∧
        String.ofList mounted.mountPoint = mountPoint) ↔
      ∀ mounted ∈ devices, ∀ character ∈ mounted.mountPoint, Text.isBlank character = true →
        character = ' ' ∨ character = '\t' ∨ character = '\n' := by
  have escaped (character : Char) : isBareBlank character = false ↔
      (Text.isBlank character = true → character = ' ' ∨ character = '\t' ∨ character = '\n') := by
    cases blank : Text.isBlank character <;> simp [isBareBlank, blank, Decidable.or_iff_not_imp_left]
  simp only [← escaped]
  constructor
  · intro exactly mounted member
    have written := (exactly _ _).mpr ⟨mounted, member, rfl, rfl⟩
    have read := (get?_ofText_systemText distinct).mpr ⟨mounted, member, rfl, rfl⟩
    rw [written] at read
    have same := String.ofList_injective (Option.some.inj read)
    exact (readMountPoint_eq_self_iff mounted.mountPoint_ne_nil).mp same.symm
  · intro covered source mountPoint
    rw [get?_ofText_systemText distinct]
    constructor
    · intro read
      obtain ⟨mounted, member, rfl, rfl⟩ := read
      rw [(readMountPoint_eq_self_iff mounted.mountPoint_ne_nil).mpr (covered mounted member)]
      exact ⟨mounted, member, rfl, rfl⟩
    · intro written
      obtain ⟨mounted, member, rfl, rfl⟩ := written
      refine ⟨mounted, member, rfl, ?_⟩
      rw [(readMountPoint_eq_self_iff mounted.mountPoint_ne_nil).mpr (covered mounted member)]

def spaceMount : MountedDevice where
  name := "sda1".toList
  mountPoint := "/media/usb stick".toList
  name_ne_nil := by decide
  name_alphanumeric := List.all_eq_true.mp rfl
  mountPoint_ne_nil := by decide

def noBreakSpaceMount : MountedDevice where
  name := "sda2".toList
  mountPoint := "/media/usb\u00A0stick".toList
  name_ne_nil := by decide
  name_alphanumeric := List.all_eq_true.mp rfl
  mountPoint_ne_nil := by decide

/-- A space survives in a mount point, a no-break space does not. -/
theorem ofText_systemText_iff_noBreakSpace :
    ([spaceMount, noBreakSpaceMount].map (·.source)).Nodup ∧
      ¬∀ source mountPoint, (ofText (systemText [spaceMount, noBreakSpaceMount])).get? source = some mountPoint ↔
        ∃ mounted ∈ [spaceMount, noBreakSpaceMount], String.ofList mounted.source = source ∧
          String.ofList mounted.mountPoint = mountPoint := by
  have distinct : ([spaceMount, noBreakSpaceMount].map (·.source)).Nodup := by decide
  refine ⟨distinct, ?_⟩
  rw [ofText_systemText_iff distinct]
  intro covered
  have escaped := covered noBreakSpaceMount (by simp) '\u00A0' (by decide) (by decide)
  revert escaped
  decide

end BlockInventory.MountTable
