import BlockInventory.Proofs.Tables
import BlockInventory.Proofs.Text.Ascii
import BlockInventory.UdevRecord

/-!
# The serial number in a record

Of all lines of a record the first that tells a serial number counts, even if the serial number is empty. Lines of any
other form, or with bytes that are no text, do not end the search. So a record that is put behind another one counts
only if the one before tells nothing.
-/

set_option autoImplicit false

namespace BlockInventory.UdevRecord

variable {record piece line value first second : List UInt8}

/-! ## Lines -/

/-- A line without the carriage return at its end. Of several only the last is left out. -/
inductive WithoutReturn : List UInt8 → List UInt8 → Prop where
  | returned {line : List UInt8} : WithoutReturn (line ++ [carriageReturn]) line
  | bare {line : List UInt8} : line.getLast? ≠ some carriageReturn → WithoutReturn line line

/-- The lines between the line feeds of a record. The last one needs no line feed behind it. -/
inductive CutInto : List UInt8 → List (List UInt8) → Prop where
  | last {piece line : List UInt8} :
      lineFeed ∉ piece → WithoutReturn piece line → CutInto piece [line]
  | cons {piece line rest : List UInt8} {others : List (List UInt8)} :
      lineFeed ∉ piece → WithoutReturn piece line → CutInto rest others →
      CutInto (piece ++ lineFeed :: rest) (line :: others)

theorem lines_append_lineFeed (first second : List UInt8) :
    lines (first ++ lineFeed :: second) = lines first ++ lines second := by
  rw [lines, List.splitOn_append_cons_self, List.map_append]
  rfl

theorem WithoutReturn.lines_eq (without : WithoutReturn piece line) (unbroken : lineFeed ∉ piece) :
    lines piece = [line] := by
  rw [lines, List.splitOn_eq_singleton unbroken]
  cases without with
  | returned => simp
  | bare unreturned => simp [unreturned]

theorem exists_withoutReturn (piece : List UInt8) : ∃ line, WithoutReturn piece line := by
  by_cases returned : piece.getLast? = some carriageReturn
  · obtain ⟨line, rfl⟩ := List.getLast?_eq_some_iff.mp returned
    exact ⟨line, .returned⟩
  · exact ⟨piece, .bare returned⟩

theorem CutInto.lines_eq {found : List (List UInt8)} (cut : CutInto record found) : lines record = found := by
  induction cut with
  | last unbroken without => exact without.lines_eq unbroken
  | cons unbroken without _ ih =>
      rw [lines_append_lineFeed, without.lines_eq unbroken, ih]
      rfl

theorem exists_cutInto (record : List UInt8) : ∃ found, CutInto record found := by
  have joined : [lineFeed].intercalate (record.splitOn lineFeed) = record := List.intercalate_splitOn lineFeed
  have unbroken : ∀ piece ∈ record.splitOn lineFeed, lineFeed ∉ piece := fun _ => Text.not_mem_of_mem_splitOn
  -- Only that no piece holds a line feed is needed of the pieces, and that they join to the record.
  rw [← joined]
  generalize record.splitOn lineFeed = pieces at unbroken
  induction pieces with
  | nil => exact ⟨_, .last List.not_mem_nil (.bare (by simp))⟩
  | cons piece pieces ih =>
      obtain ⟨line, without⟩ := exists_withoutReturn piece
      have pieceUnbroken := unbroken piece List.mem_cons_self
      cases pieces with
      | nil =>
          rw [List.intercalate_singleton]
          exact ⟨[line], .last pieceUnbroken without⟩
      | cons next pieces =>
          obtain ⟨others, cut⟩ := ih fun other member => unbroken other (List.mem_cons_of_mem _ member)
          rw [List.intercalate_cons_cons, List.append_assoc, List.singleton_append]
          exact ⟨line :: others, .cons pieceUnbroken without cut⟩

theorem cutInto_iff {found : List (List UInt8)} : CutInto record found ↔ lines record = found := by
  constructor
  · intro cut
    exact cut.lines_eq
  · intro same
    obtain ⟨_, cut⟩ := exists_cutInto record
    rwa [← same, cut.lines_eq]

theorem lineFeed_not_mem_of_mem_lines (member : line ∈ lines record) : lineFeed ∉ line := by
  obtain ⟨piece, isPiece, rfl⟩ := List.mem_map.mp member
  have unbroken : lineFeed ∉ piece := Text.not_mem_of_mem_splitOn isPiece
  split
  · intro inside
    exact unbroken (List.dropLast_subset piece inside)
  · exact unbroken

/-! ## The line that counts -/

/-- The line is the key, an equals sign and the value, and has no further equals sign. -/
def TellsSerial (line value : List UInt8) : Prop :=
  line = Text.Utf8.encode "E:ID_SERIAL_SHORT=".toList ++ value ∧ equalsSign ∉ value

private theorem intercalate_key (value : List UInt8) :
    [equalsSign].intercalate [serialKey, value] = Text.Utf8.encode "E:ID_SERIAL_SHORT=".toList ++ value := by
  rw [List.intercalate_cons_cons, List.intercalate_singleton]
  rfl

theorem lineSerial?_eq_some_iff : lineSerial? line = some value ↔ TellsSerial line value := by
  constructor
  · intro told
    have joined : [equalsSign].intercalate (line.splitOn equalsSign) = line := List.intercalate_splitOn equalsSign
    unfold lineSerial? at told
    split at told
    next key last shape =>
      split at told
      next same =>
        cases told
        rw [shape, same, intercalate_key] at joined
        have isPiece : value ∈ line.splitOn equalsSign := by simp [shape]
        exact ⟨joined.symm, Text.not_mem_of_mem_splitOn isPiece⟩
      next => cases told
    next => cases told
  · intro tells
    obtain ⟨rfl, apart⟩ := tells
    have keyApart : equalsSign ∉ serialKey := by decide +kernel
    have pieces : ∀ piece ∈ [serialKey, value], equalsSign ∉ piece := by
      simp [keyApart, apart]
    have shape := List.splitOn_intercalate equalsSign pieces (List.cons_ne_nil _ _)
    rw [← intercalate_key, lineSerial?, shape]
    exact if_pos rfl

theorem serial?_eq_some_iff {serial : List Char} :
    serial? record = some serial ↔
      ∃ value, FirstTells TellsSerial (lines record) value ∧ Text.Utf8.decodeLossy value = serial := by
  simp only [serial?, Option.map_eq_some_iff, findSome?_eq_some_iff_firstTells, lineSerial?_eq_some_iff]

theorem serial?_eq_none_iff : serial? record = none ↔ ∀ line ∈ lines record, ∀ value, ¬TellsSerial line value := by
  have silent (line : List UInt8) : lineSerial? line = none ↔ ∀ value, ¬TellsSerial line value := by
    simp only [Option.eq_none_iff_forall_ne_some, ne_eq, lineSerial?_eq_some_iff]
  simp only [serial?, Option.map_eq_none_iff, List.findSome?_eq_none_iff, silent]

theorem serial?_append_lineFeed (first second : List UInt8) :
    serial? (first ++ lineFeed :: second) = (serial? first).or (serial? second) := by
  rw [serial?, lines_append_lineFeed, List.findSome?_append, Option.map_or]
  rfl

/-- The serial number of a record is what the first of its lines tells that tells one, and there is none if no line
does. Whatever follows a line that tells one makes no difference. -/
theorem first_line_tells_serial (record : List UInt8) :
    CutInto record (lines record) ∧
      (∀ serial, serial? record = some serial ↔
        ∃ value, FirstTells TellsSerial (lines record) value ∧ Text.Utf8.decodeLossy value = serial) ∧
      (serial? record = none ↔ ∀ line ∈ lines record, ∀ value, ¬TellsSerial line value) ∧
      ∀ further, serial? (record ++ lineFeed :: further) = (serial? record).or (serial? further) := by
  refine ⟨cutInto_iff.mpr rfl, ?_, serial?_eq_none_iff, ?_⟩
  · intro serial
    exact serial?_eq_some_iff
  · intro further
    exact serial?_append_lineFeed record further

/-- An empty serial number counts, and is not sought again. -/
example : serial? (Text.Utf8.encode "E:ID_SERIAL_SHORT=a=b\nE:ID_SERIAL_SHORT=\r\nE:ID_SERIAL_SHORT=c".toList) =
    some [] := by decide +kernel

theorem serial?_onOneLine {serial : List Char} (found : serial? record = some serial) :
    '=' ∉ serial ∧ '\n' ∉ serial := by
  have equals : Text.Utf8.IsAscii '=' := by decide
  have feed : Text.Utf8.IsAscii '\n' := by decide
  obtain ⟨value, first, rfl⟩ := serial?_eq_some_iff.mp found
  obtain ⟨line, member, rfl, apart⟩ := first.exists_mem
  constructor
  · intro inside
    exact apart ((Text.Utf8.mem_decodeLossy_iff equals value).mp inside)
  · intro inside
    have broken := (Text.Utf8.mem_decodeLossy_iff feed value).mp inside
    exact lineFeed_not_mem_of_mem_lines member (List.mem_append_right _ broken)

end BlockInventory.UdevRecord
