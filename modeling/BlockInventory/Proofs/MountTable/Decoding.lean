import BlockInventory.Proofs.MountTable.Escapes

/-!
# Decoding of any field

Whatever a field holds, its decoding looks only at bytes that are there, cuts the field only between characters and comes
to an end. What it gives is told by a relation that replaces escapes from left to right: an escape counts only where it
was not begun by the one before it, and a byte that begins none is copied.
-/

set_option autoImplicit false

namespace BlockInventory

namespace OctalField

/-- The bytes with their escapes replaced from left to right. -/
inductive Replaces : (bytes replaced : List UInt8) → Prop where
  | nil : Replaces [] []
  | escaped {byte : UInt8} {rest replaced : List UInt8} :
      Replaces rest replaced → Replaces (Text.Utf8.encode (escape byte) ++ rest) (byte :: replaced)
  | copied {first : UInt8} {rest replaced : List UInt8} :
      (∀ byte, ¬Text.Utf8.encode (escape byte) <+: first :: rest) → Replaces rest replaced →
      Replaces (first :: rest) (first :: replaced)

private theorem eq_octalDigit {byte : UInt8} {digit : Nat} (read : digit? byte = some digit) :
    digit < 8 ∧ byte = UInt8.ofNat (0x30 + digit) := by
  obtain ⟨range, rfl⟩ := digit?_eq_some_iff.mp read
  have value : 0x30 + (byte.toNat - 0x30) = byte.toNat := by omega
  exact ⟨by omega, by rw [value, UInt8.ofNat_toNat]⟩

theorem escaped?_eq_some_iff {first high middle low byte : UInt8} :
    escaped? first high middle low = some byte ↔ [first, high, middle, low] = Text.Utf8.encode (escape byte) := by
  rw [encode_escape]
  constructor
  · intro escaped
    obtain ⟨hundreds, tens, ones, highIs, middleIs, lowIs, ⟨rfl, fits⟩, rfl⟩ := escaped?_eq_some_iff_digits.mp escaped
    obtain ⟨_, rfl⟩ := eq_octalDigit highIs
    obtain ⟨tensBound, rfl⟩ := eq_octalDigit middleIs
    obtain ⟨onesBound, rfl⟩ := eq_octalDigit lowIs
    have high : (hundreds * 64 + tens * 8 + ones) / 64 = hundreds := by omega
    have middle : (hundreds * 64 + tens * 8 + ones) / 8 % 8 = tens := by omega
    have low : (hundreds * 64 + tens * 8 + ones) % 8 = ones := by omega
    rw [Text.Utf8.toNat_ofNat fits, high, middle, low]
  · intro same
    cases same
    exact escaped?_escape byte

theorem leadingEscape?_eq_some_iff {bytes : List UInt8} {byte : UInt8} :
    leadingEscape? bytes = some byte ↔ Text.Utf8.encode (escape byte) <+: bytes := by
  constructor
  · intro escaped
    match bytes with
    | first :: high :: middle :: low :: rest =>
        rw [← escaped?_eq_some_iff.mp escaped]
        exact List.prefix_append _ rest
  · intro begins
    obtain ⟨rest, rfl⟩ := begins
    rw [encode_escape]
    exact escaped?_escape byte

theorem leadingEscape?_eq_none_iff {bytes : List UInt8} :
    leadingEscape? bytes = none ↔ ∀ byte, ¬Text.Utf8.encode (escape byte) <+: bytes := by
  simp only [Option.eq_none_iff_forall_ne_some, ne_eq, leadingEscape?_eq_some_iff]

theorem replaces_decode (bytes : List UInt8) : Replaces bytes (decode bytes) := by
  fun_induction decode bytes with
  | case1 first high middle low rest byte escaped ih =>
      have shape : first :: high :: middle :: low :: rest = Text.Utf8.encode (escape byte) ++ rest :=
        congrArg (· ++ rest) (escaped?_eq_some_iff.mp escaped)
      rw [shape]
      exact .escaped ih
  | case2 first high middle low rest plain ih => exact .copied (leadingEscape?_eq_none_iff.mp plain) ih
  | case3 first rest short ih =>
      have plain : leadingEscape? (first :: rest) = none := by
        match rest with
        | [] => rfl
        | [_] => rfl
        | [_, _] => rfl
        | high :: middle :: low :: _ => exact absurd rfl (short high middle low _)
      exact .copied (leadingEscape?_eq_none_iff.mp plain) ih
  | case4 => exact .nil

theorem replaces_iff {bytes replaced : List UInt8} : Replaces bytes replaced ↔ decode bytes = replaced := by
  constructor
  · intro replaces
    induction replaces with
    | nil => rfl
    | @escaped byte rest _ _ ih => rw [decode_escape, ih]
    | copied plain _ ih => rw [decode_of_no_leadingEscape? (leadingEscape?_eq_none_iff.mpr plain), ih]
  · intro decoded
    subst decoded
    exact replaces_decode bytes

theorem Replaces.eq_of_no_escape {bytes replaced : List UInt8} (replaces : Replaces bytes replaced)
    (absent : ∀ byte, ¬Text.Utf8.encode (escape byte) <:+: bytes) : replaced = bytes := by
  induction replaces with
  | nil => rfl
  | @escaped byte rest _ _ _ => exact absurd (List.prefix_append _ rest).isInfix (absent byte)
  | copied _ _ ih => rw [ih fun byte inside => absent byte (List.infix_cons inside)]

private theorem isAscii_octalDigit : ∀ digit < 8, Text.Utf8.IsAscii (Nat.digitChar digit) := by
  decide

theorem isAscii_escape (byte : UInt8) : ∀ character ∈ escape byte, Text.Utf8.IsAscii character := by
  have bound : byte.toNat < 256 := byte.toNat_lt
  simp only [escape, List.forall_mem_cons, List.not_mem_nil, false_implies, implies_true, and_true]
  refine ⟨by decide, ?_, ?_, ?_⟩
  all_goals exact isAscii_octalDigit _ (by omega)

/-- The bytes of an escape are found in a field only where the field spells it. -/
theorem isInfix_of_encode_escape {field : List Char} {byte : UInt8}
    (inside : Text.Utf8.encode (escape byte) <:+: Text.Utf8.encode field) : escape byte <:+: field := by
  obtain ⟨front, back, bytes⟩ := inside
  have opening : Text.Utf8.encode field =
      front ++ backslash :: ((Text.Utf8.encode (escape byte)).tail ++ back) := by
    rw [← bytes, encode_escape]
    simp
  have single : backslash.toNat < 0x80 := by decide
  obtain ⟨before, character, behind, rfl, code, _, rest⟩ := Text.exists_parts_of_encode single opening
  have begins : Text.Utf8.encode (escape byte) <+: Text.Utf8.encode (character :: behind) := by
    rw [Text.encode_cons_of_code single code, rest, encode_escape]
    exact List.prefix_append _ back
  rw [← Text.Utf8.isPrefix_decodeLossy_iff (isAscii_escape byte), Text.Utf8.decodeLossy_encode] at begins
  exact begins.isInfix.trans (List.suffix_append before _).isInfix

/-- The tests that lead to a numeral being cut out: a backslash, and three bytes behind it, all of them decimal digits. -/
def TakesNumeral (field : List Char) (place : Nat) : Prop :=
  ∃ digits, (Text.Utf8.encode field)[place]? = some backslash ∧
    Text.bytesBetween (Text.Utf8.encode field) (place + 1) (place + 4) = .ok digits ∧ digits.all isDecimal = true

theorem TakesNumeral.exists_slice {field : List Char} {place : Nat} (takes : TakesNumeral field place) :
    ∃ numeral, Text.slice field (place + 1) (place + 4) = .ok numeral := by
  obtain ⟨digits, opens, looked, decimal⟩ := takes
  obtain ⟨inside, first⟩ := List.getElem?_eq_some_iff.mp opens
  have far : place + 3 < (Text.Utf8.encode field).length := by
    simp only [Text.bytesBetween] at looked
    split at looked
    next => cases looked
    next =>
      split at looked
      next => cases looked
      next within => omega
  have found := escapeAt_eq inside
  simp only [escapeAt, Text.byteAt_eq inside, first, looked, decimal, bind, Except.bind, far, and_self, if_true] at found
  cases sliced : Text.slice field (place + 1) (place + 4) with
  | ok numeral => exact ⟨numeral, rfl⟩
  | error refusal => simp [sliced] at found

end OctalField

namespace MountTable

open OctalField

/-- Decoding any field ends, since each step moves on, and no step is refused: every byte that is looked at is there, and a
numeral is cut out only between characters. -/
theorem decoding_safe (field : List Char) :
    (∀ decoding : Decoding, decoding.place < (Text.Utf8.encode field).length →
      ∃ next, decoding.step field = .ok next ∧ decoding.place < next.place ∧
        next.place ≤ (Text.Utf8.encode field).length) ∧
    (∀ place, TakesNumeral field place → Text.IsBoundary field (place + 1) ∧ Text.IsBoundary field (place + 4)) ∧
    (∃ replaced, Decoding.start.run field = .ok ⟨(Text.Utf8.encode field).length, replaced⟩ ∧
      (∀ other, Replaces (Text.Utf8.encode field) other ↔ other = replaced) ∧
      decodeField field = Text.Utf8.decodeLossy replaced) ∧
    (field ≠ [] → decodeField field ≠ []) ∧
    ((∀ byte, ¬escape byte <:+: field) → decodeField field = field) := by
  refine ⟨?_, ?_, ?_, decodeField_ne_nil, ?_⟩
  · intro decoding inside
    obtain ⟨next, taken, within, _⟩ := Decoding.exists_step inside
    exact ⟨next, taken, Decoding.place_lt_of_step taken, within⟩
  · intro place takes
    obtain ⟨numeral, sliced⟩ := takes.exists_slice
    exact Text.isBoundary_of_slice sliced
  · refine ⟨decode (Text.Utf8.encode field), Decoding.run_eq (Nat.zero_le _), ?_, decodeField_eq_decode field⟩
    intro other
    rw [replaces_iff, eq_comm]
  · intro absent
    have unchanged := (replaces_decode (Text.Utf8.encode field)).eq_of_no_escape fun byte inside =>
      absent byte (isInfix_of_encode_escape inside)
    rw [decodeField_eq_decode, unchanged, Text.Utf8.decodeLossy_encode]

/-- A step is taken even where it begins inside a character of two bytes. -/
theorem decoding_safe_multibyte :
    (∃ next, Decoding.step "é\\040\\400".toList ⟨1, []⟩ = .ok next ∧ 1 < next.place ∧ next.place ≤ 10) ∧
      TakesNumeral "é\\040\\400".toList 2 ∧ Text.IsBoundary "é\\040\\400".toList 3 ∧
      Text.IsBoundary "é\\040\\400".toList 6 ∧ decodeField "é\\040\\400".toList ≠ [] ∧
      decodeField "\\400\\08é\\12".toList = "\\400\\08é\\12".toList := by
  obtain ⟨steps, boundaries, _, filled, _⟩ := decoding_safe "é\\040\\400".toList
  obtain ⟨_, _, _, _, unchanged⟩ := decoding_safe "\\400\\08é\\12".toList
  have takes : TakesNumeral "é\\040\\400".toList 2 :=
    ⟨[0x30, 0x34, 0x30], by decide +kernel, rfl, by decide⟩
  have absent : ∀ number < 256, ¬escape (UInt8.ofNat number) <:+: "\\400\\08é\\12".toList := by decide +kernel
  obtain ⟨first, second⟩ := boundaries 2 takes
  have inside : 1 < (Text.Utf8.encode "é\\040\\400".toList).length := by decide +kernel
  refine ⟨steps ⟨1, []⟩ inside, takes, first, second, filled (by decide), unchanged fun byte => ?_⟩
  have bare := absent byte.toNat byte.toNat_lt
  rwa [UInt8.ofNat_toNat] at bare

end MountTable

end BlockInventory
