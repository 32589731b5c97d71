import BlockInventory.Proofs.Tables
import BlockInventory.Proofs.Text.Ascii

/-!
# Spellings of mount points

A mount point can be written in many ways: each of its characters as it is or with every byte as an octal escape. Only
backslashes and blank characters have to be escaped. Whatever is chosen, one reading of the field gives the mount point
back: escapes are decoded once, and digits behind an escape belong to no other.
-/

set_option autoImplicit false

namespace BlockInventory

namespace OctalField

/-- A byte as a backslash and three octal digits. -/
def escape (byte : UInt8) : List Char :=
  ['\\', Nat.digitChar (byte.toNat / 64), Nat.digitChar (byte.toNat / 8 % 8), Nat.digitChar (byte.toNat % 8)]

private theorem encodeChar_octalDigit : ∀ digit < 8,
    Text.Utf8.encodeChar (Nat.digitChar digit) = [UInt8.ofNat (0x30 + digit)] := by
  decide

private theorem digit?_octalDigit : ∀ digit < 8, digit? (UInt8.ofNat (0x30 + digit)) = some digit := by
  decide

theorem escaped?_octal (high middle low : Nat) (highDigit : high < 8) (middleDigit : middle < 8) (lowDigit : low < 8)
    (fits : high * 64 + middle * 8 + low < 256) :
    escaped? backslash (UInt8.ofNat (0x30 + high)) (UInt8.ofNat (0x30 + middle)) (UInt8.ofNat (0x30 + low)) =
      some (UInt8.ofNat (high * 64 + middle * 8 + low)) := by
  simp only [escaped?, digit?_octalDigit high highDigit, digit?_octalDigit middle middleDigit,
    digit?_octalDigit low lowDigit, fits, and_self, if_true]

theorem encode_escape (byte : UInt8) :
    Text.Utf8.encode (escape byte) = [backslash, UInt8.ofNat (0x30 + byte.toNat / 64),
      UInt8.ofNat (0x30 + byte.toNat / 8 % 8), UInt8.ofNat (0x30 + byte.toNat % 8)] := by
  have bound : byte.toNat < 256 := byte.toNat_lt
  simp only [Text.Utf8.encode, escape, List.flatMap_cons, List.flatMap_nil,
    encodeChar_octalDigit (byte.toNat / 64) (by omega), encodeChar_octalDigit (byte.toNat / 8 % 8) (by omega),
    encodeChar_octalDigit (byte.toNat % 8) (by omega)]
  rfl

theorem escaped?_escape (byte : UInt8) :
    escaped? backslash (UInt8.ofNat (0x30 + byte.toNat / 64)) (UInt8.ofNat (0x30 + byte.toNat / 8 % 8))
      (UInt8.ofNat (0x30 + byte.toNat % 8)) = some byte := by
  have bound : byte.toNat < 256 := byte.toNat_lt
  have value : byte.toNat / 64 * 64 + byte.toNat / 8 % 8 * 8 + byte.toNat % 8 = byte.toNat := by omega
  have escaped := escaped?_octal (byte.toNat / 64) (byte.toNat / 8 % 8) (byte.toNat % 8)
    (by omega) (by omega) (by omega) (by omega)
  rwa [value, UInt8.ofNat_toNat] at escaped

theorem decode_escape (byte : UInt8) (rest : List UInt8) :
    decode (Text.Utf8.encode (escape byte) ++ rest) = byte :: decode rest := by
  rw [encode_escape]
  exact decode_escaped rest (escaped?_escape byte)

theorem decode_escapes (bytes rest : List UInt8) :
    decode (Text.Utf8.encode (bytes.flatMap escape) ++ rest) = bytes ++ decode rest := by
  induction bytes with
  | nil => rfl
  | cons byte bytes ih =>
      simp only [List.flatMap_cons, Text.Utf8.encode_append, List.append_assoc, decode_escape, ih, List.cons_append]

end OctalField

namespace MountTable

/-- The field spells the mount point: each character stands as it is, if it may, or with all its bytes escaped. -/
inductive Spells : (field mountPoint : List Char) → Prop where
  | nil : Spells [] []
  | plain {character : Char} {field mountPoint : List Char} :
      Text.isBlank character = false → character ≠ '\\' → Spells field mountPoint →
      Spells (character :: field) (character :: mountPoint)
  | escaped {character : Char} {field mountPoint : List Char} : Spells field mountPoint →
      Spells ((Text.Utf8.encodeChar character).flatMap OctalField.escape ++ field) (character :: mountPoint)

namespace Spells

variable {field mountPoint : List Char}

theorem decode_encode (spells : Spells field mountPoint) :
    OctalField.decode (Text.Utf8.encode field) = Text.Utf8.encode mountPoint := by
  induction spells with
  | nil => rfl
  | @plain character field mountPoint _ notBackslash _ ih =>
      have absent : OctalField.backslash ∉ Text.Utf8.encodeChar character := by
        rw [Text.Utf8.mem_encodeChar_iff (by decide)]
        exact fun same => notBackslash (Char.toNat_inj.mp same)
      calc OctalField.decode (Text.Utf8.encode (character :: field))
        _ = Text.Utf8.encodeChar character ++ OctalField.decode (Text.Utf8.encode field) :=
          OctalField.decode_append absent _
        _ = Text.Utf8.encode (character :: mountPoint) := by rw [ih]; rfl
  | @escaped character field mountPoint _ ih =>
      calc OctalField.decode (Text.Utf8.encode ((Text.Utf8.encodeChar character).flatMap OctalField.escape ++ field))
        _ = Text.Utf8.encodeChar character ++ OctalField.decode (Text.Utf8.encode field) := by
          rw [Text.Utf8.encode_append, OctalField.decode_escapes]
        _ = Text.Utf8.encode (character :: mountPoint) := by rw [ih]; rfl

theorem decodeField_eq (spells : Spells field mountPoint) : decodeField field = mountPoint := by
  rw [decodeField_eq_decode, spells.decode_encode, Text.Utf8.decodeLossy_encode]

private theorem isBlank_octalDigit : ∀ digit < 8, Text.isBlank (Nat.digitChar digit) = false := by
  decide

theorem isBlank_escape (byte : UInt8) : ∀ written ∈ OctalField.escape byte, Text.isBlank written = false := by
  have bound : byte.toNat < 256 := byte.toNat_lt
  simp only [OctalField.escape, List.forall_mem_cons, List.not_mem_nil, false_implies, implies_true, and_true]
  refine ⟨by decide, ?_, ?_, ?_⟩
  all_goals exact isBlank_octalDigit _ (by omega)

theorem isBlank_of_mem (spells : Spells field mountPoint) : ∀ written ∈ field, Text.isBlank written = false := by
  induction spells with
  | nil => simp
  | plain solid _ _ ih => exact List.forall_mem_cons.mpr ⟨solid, ih⟩
  | escaped _ ih =>
      intro written member
      rcases List.mem_append.mp member with escape | later
      · obtain ⟨byte, _, inEscape⟩ := List.mem_flatMap.mp escape
        exact isBlank_escape byte written inEscape
      · exact ih written later

theorem ne_nil (spells : Spells field mountPoint) (pointed : mountPoint ≠ []) : field ≠ [] := by
  rintro rfl
  exact pointed (spells.decodeField_eq.symm.trans (decodeField_eq_decode []))

end Spells

theorem ofLine?_spelled {name field mountPoint rest : List Char}
    (solid : ∀ character ∈ name, Text.isBlank character = false) (pointed : mountPoint ≠ [])
    (spells : Spells field mountPoint) (apart : rest = [] ∨ ∃ further, rest = ' ' :: further) :
    ofLine? (deviceDirectory ++ name ++ ' ' :: (field ++ rest)) =
      some (String.ofList (deviceDirectory ++ name), String.ofList mountPoint) := by
  have source : Text.fields (deviceDirectory ++ name) = [deviceDirectory ++ name] :=
    Text.fields_eq_singleton (List.append_ne_nil_of_left_ne_nil (List.cons_ne_nil _ _) _)
      (List.forall_mem_append.mpr ⟨isBlank_deviceDirectory, solid⟩)
  have point : ∃ further, Text.fields (field ++ rest) = field :: further := by
    have alone := Text.fields_eq_singleton (spells.ne_nil pointed) spells.isBlank_of_mem
    rcases apart with rfl | ⟨further, rfl⟩
    · exact ⟨[], by rw [List.append_nil, alone]⟩
    · exact ⟨Text.fields further, by rw [Text.fields_append_cons (by decide), alone]; rfl⟩
  obtain ⟨further, point⟩ := point
  rw [ofLine?_eq_some_iff, String.toList_ofList]
  refine ⟨List.prefix_append _ _, field, ⟨further, ?_⟩, congrArg String.ofList spells.decodeField_eq⟩
  rw [Text.fields_append_cons (by decide), source, point]
  rfl

/-- A line that mounts a device where one of its spellings says is a table with this one entry. -/
theorem entries_ofText_spelled {name field mountPoint rest : List Char}
    (solid : ∀ character ∈ name, Text.isBlank character = false) (pointed : mountPoint ≠ [])
    (spells : Spells field mountPoint) (apart : rest = [] ∨ ∃ further, rest = ' ' :: further) (oneLine : '\n' ∉ rest) :
    (ofText (deviceDirectory ++ name ++ ' ' :: (field ++ rest))).entries =
      [(String.ofList (deviceDirectory ++ name), String.ofList mountPoint)] := by
  have line : '\n' ∉ deviceDirectory ++ name ++ ' ' :: (field ++ rest) := by
    have source := Text.lineFeed_not_mem_of_isBlank (List.forall_mem_append.mpr ⟨isBlank_deviceDirectory, solid⟩)
    have point := Text.lineFeed_not_mem_of_isBlank spells.isBlank_of_mem
    intro member
    rcases List.mem_append.mp member with inSource | behind
    · exact source inSource
    · rcases List.mem_cons.mp behind with space | behind
      · cases space
      · exact (List.mem_append.mp behind).elim point oneLine
  rw [ofText, List.splitOn_eq_singleton line]
  simp only [List.filterMap_cons, ofLine?_spelled solid pointed spells apart, List.filterMap_nil]
  rfl

/-- Of `\040é 1`, only the zeros, the four and the one stand as they are. -/
theorem entries_ofText_spelled_digits :
    Spells "\\134040\\303\\251\\0401".toList "\\040é 1".toList ∧
      (ofText "/dev/sda1 \\134040\\303\\251\\0401 ext4 rw".toList).entries = [("/dev/sda1", "\\040é 1")] := by
  have spells : Spells ((Text.Utf8.encodeChar '\\').flatMap OctalField.escape ++ '0' :: '4' :: '0' ::
      ((Text.Utf8.encodeChar 'é').flatMap OctalField.escape ++
        ((Text.Utf8.encodeChar ' ').flatMap OctalField.escape ++ ['1']))) ['\\', '0', '4', '0', 'é', ' ', '1'] := by
    apply Spells.escaped
    apply Spells.plain (by decide) (by decide)
    apply Spells.plain (by decide) (by decide)
    apply Spells.plain (by decide) (by decide)
    apply Spells.escaped
    apply Spells.escaped
    exact Spells.plain (by decide) (by decide) .nil
  have solid : ∀ character ∈ "sda1".toList, Text.isBlank character = false := by
    simp [Text.isBlank, Text.blankRanges]
  have read := @entries_ofText_spelled "sda1".toList _ _ " ext4 rw".toList solid (List.cons_ne_nil _ _) spells
    (.inr ⟨"ext4 rw".toList, rfl⟩) (by decide +kernel)
  exact ⟨spells, read⟩

end MountTable

end BlockInventory
