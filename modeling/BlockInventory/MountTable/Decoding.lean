import BlockInventory.MountTable.OctalField
import BlockInventory.Text.Numeral
import BlockInventory.Text.Place

/-!
# Decoding by places

A field is decoded by a place that moves over its bytes. Behind a backslash the next three bytes are looked at, and if
they are decimal digits, the numeral that they spell is cut out of the field. The place can come to stand inside a
character, but no numeral is ever cut out there: no access is refused, and what is decoded is what replacing the escapes
from left to right gives.
-/

set_option autoImplicit false

namespace BlockInventory.OctalField

def isDecimal (byte : UInt8) : Bool :=
  0x30 ≤ byte.toNat && byte.toNat ≤ 0x39

/-- The byte that an octal numeral writes, if its value fits in one. -/
def readOctal? (numeral : List Char) : Option UInt8 :=
  (Text.Numeral.readBelow? 8 UInt8.size numeral).map UInt8.ofNat

/-- How far a field has been decoded, and to which bytes. -/
structure Decoding where
  place : Nat
  decoded : List UInt8
  deriving DecidableEq

/-- The byte for which the escape at a place stands, if one begins there. -/
def escapeAt (field : List Char) (place : Nat) : Except Text.Refusal (Option UInt8) := do
  let bytes := Text.Utf8.encode field
  let first ← Text.byteAt bytes place
  if first = backslash ∧ place + 3 < bytes.length then
    let digits ← Text.bytesBetween bytes (place + 1) (place + 4)
    if digits.all isDecimal then
      let numeral ← Text.slice field (place + 1) (place + 4)
      return readOctal? numeral
    else return none
  else return none

namespace Decoding

def start : Decoding := ⟨0, []⟩

def step (field : List Char) (decoding : Decoding) : Except Text.Refusal Decoding := do
  match ← escapeAt field decoding.place with
  | some byte => return ⟨decoding.place + 4, decoding.decoded ++ [byte]⟩
  | none =>
    let byte ← Text.byteAt (Text.Utf8.encode field) decoding.place
    return ⟨decoding.place + 1, decoding.decoded ++ [byte]⟩

theorem place_lt_of_step {field : List Char} {decoding next : Decoding} (taken : decoding.step field = .ok next) :
    decoding.place < next.place := by
  simp only [step, bind, Except.bind] at taken
  split at taken
  next => cases taken
  next escape _ =>
    cases escape with
    | some byte =>
        cases taken
        exact Nat.lt_add_of_pos_right (by decide)
    | none =>
        simp only at taken
        split at taken
        next => cases taken
        next =>
          cases taken
          exact Nat.lt_succ_self _

/-- Goes on to the end of the field. -/
def run (field : List Char) (decoding : Decoding) : Except Text.Refusal Decoding :=
  if decoding.place < (Text.Utf8.encode field).length then
    match taken : decoding.step field with
    | .ok next =>
      have := place_lt_of_step taken
      next.run field
    | .error refusal => .error refusal
  else .ok decoding
termination_by (Text.Utf8.encode field).length - decoding.place

end Decoding

/-! ## What a step does -/

/-- The byte for which the escape at the beginning of the bytes stands. -/
def leadingEscape? : List UInt8 → Option UInt8
  | first :: high :: middle :: low :: _ => escaped? first high middle low
  | _ => none

theorem four_le_of_leadingEscape? {bytes : List UInt8} {byte : UInt8} (escape : leadingEscape? bytes = some byte) :
    4 ≤ bytes.length := by
  match bytes with
  | _ :: _ :: _ :: _ :: rest => simp

theorem decode_of_leadingEscape? {bytes : List UInt8} {byte : UInt8} (escape : leadingEscape? bytes = some byte) :
    decode bytes = byte :: decode (bytes.drop 4) := by
  match bytes with
  | _ :: _ :: _ :: _ :: rest => exact decode_escaped rest escape

theorem decode_of_no_leadingEscape? {first : UInt8} {rest : List UInt8}
    (plain : leadingEscape? (first :: rest) = none) : decode (first :: rest) = first :: decode rest := by
  match rest with
  | [] => rfl
  | [_] => rfl
  | [_, _] => rfl
  | high :: middle :: low :: _ =>
      rw [decode]
      rw [leadingEscape?] at plain
      rw [plain]

theorem escaped?_of_not_isDecimal {first high middle low : UInt8}
    (other : [high, middle, low].all isDecimal = false) : escaped? first high middle low = none := by
  rw [Option.eq_none_iff_forall_ne_some]
  intro byte escape
  obtain ⟨_, _, _, highIs, middleIs, lowIs, _⟩ := escaped?_eq_some_iff_digits.mp escape
  obtain ⟨⟨highLeast, highMost⟩, _⟩ := digit?_eq_some_iff.mp highIs
  obtain ⟨⟨middleLeast, middleMost⟩, _⟩ := digit?_eq_some_iff.mp middleIs
  obtain ⟨⟨lowLeast, lowMost⟩, _⟩ := digit?_eq_some_iff.mp lowIs
  simp only [List.all_cons, List.all_nil, isDecimal, Bool.and_true, Bool.and_eq_false_iff,
    decide_eq_false_iff_not] at other
  omega

section Numeral

variable {first second third : Char} {high middle low : UInt8}

private theorem readBelow?_octal {number : Nat} (firstCode : first.toNat = high.toNat)
    (secondCode : second.toNat = middle.toNat) (thirdCode : third.toNat = low.toNat)
    (decimal : [high, middle, low].all isDecimal = true) :
    Text.Numeral.readBelow? 8 UInt8.size [first, second, third] = some number ↔
      (high.toNat ≤ 0x37 ∧ middle.toNat ≤ 0x37 ∧ low.toNat ≤ 0x37) ∧
        (high.toNat - 0x30) * 64 + (middle.toNat - 0x30) * 8 + (low.toNat - 0x30) = number ∧ number < UInt8.size := by
  simp only [List.all_cons, List.all_nil, isDecimal, Bool.and_true, Bool.and_eq_true, decide_eq_true_eq] at decimal
  obtain ⟨⟨highLeast, _⟩, ⟨middleLeast, _⟩, lowLeast, _⟩ := decimal
  have signless : Text.Numeral.unsigned [first, second, third] = [first, second, third] := by
    unfold Text.Numeral.unsigned
    split
    next sign _ shape =>
      cases shape
      have plus : 0x2B = high.toNat := firstCode
      omega
    next => rfl
  have value : Nat.ofDigitChars 8 [first, second, third] 0 =
      (high.toNat - 0x30) * 64 + (middle.toNat - 0x30) * 8 + (low.toNat - 0x30) := by
    have zero : '0'.toNat = 0x30 := rfl
    simp only [Nat.ofDigitChars_cons, Nat.ofDigitChars_nil, firstCode, secondCode, thirdCode, zero]
    omega
  have octal {digit : Char} {byte : UInt8} (code : digit.toNat = byte.toNat) :
      Text.Numeral.isDigitIn 8 digit = true ↔ 0x30 ≤ byte.toNat ∧ byte.toNat ≤ 0x37 := by
    have upper : byte.toNat < '0'.toNat + 8 ↔ byte.toNat ≤ 0x37 := Nat.lt_succ_iff
    rw [Text.Numeral.isDigitIn, code, Bool.and_eq_true, decide_eq_true_eq, decide_eq_true_eq, upper]
    rfl
  rw [Text.Numeral.readBelow?_eq_some_iff (by decide), signless, value]
  simp only [List.forall_mem_cons, List.not_mem_nil, false_implies, implies_true, and_true, ne_eq, reduceCtorEq,
    not_false_eq_true, true_and, octal firstCode, octal secondCode, octal thirdCode, highLeast, middleLeast, lowLeast]

/-- A numeral of three decimal digits is read as the escape that they are part of. -/
theorem readOctal?_digits (firstCode : first.toNat = high.toNat) (secondCode : second.toNat = middle.toNat)
    (thirdCode : third.toNat = low.toNat) (decimal : [high, middle, low].all isDecimal = true) :
    readOctal? [first, second, third] = escaped? backslash high middle low := by
  apply Option.ext
  intro byte
  rw [escaped?_eq_some_iff_digits, readOctal?, Option.map_eq_some_iff]
  simp only [readBelow?_octal firstCode secondCode thirdCode decimal, digit?_eq_some_iff]
  simp only [List.all_cons, List.all_nil, isDecimal, Bool.and_true, Bool.and_eq_true, decide_eq_true_eq] at decimal
  obtain ⟨⟨highLeast, _⟩, ⟨middleLeast, _⟩, lowLeast, _⟩ := decimal
  constructor
  · intro read
    obtain ⟨_, ⟨⟨highMost, middleMost, lowMost⟩, rfl, fits⟩, rfl⟩ := read
    exact ⟨_, _, _, ⟨⟨highLeast, highMost⟩, rfl⟩, ⟨⟨middleLeast, middleMost⟩, rfl⟩, ⟨⟨lowLeast, lowMost⟩, rfl⟩,
      ⟨trivial, fits⟩, rfl⟩
  · intro escape
    obtain ⟨_, _, _, ⟨⟨_, highMost⟩, rfl⟩, ⟨⟨_, middleMost⟩, rfl⟩, ⟨⟨_, lowMost⟩, rfl⟩, ⟨_, fits⟩, rfl⟩ := escape
    exact ⟨_, ⟨⟨highMost, middleMost, lowMost⟩, rfl, fits⟩, rfl⟩

end Numeral

/-- The bytes of an escape that can be looked at stand for characters of their own. -/
theorem exists_numeral {field : List Char} {place : Nat} {high middle low : UInt8} {rest : List UInt8}
    (inside : place < (Text.Utf8.encode field).length)
    (bytes : (Text.Utf8.encode field).drop place = backslash :: high :: middle :: low :: rest)
    (decimal : [high, middle, low].all isDecimal = true) :
    ∃ first second third, first.toNat = high.toNat ∧ second.toNat = middle.toNat ∧ third.toNat = low.toNat ∧
      Text.slice field (place + 1) (place + 4) = .ok [first, second, third] := by
  simp only [List.all_cons, List.all_nil, isDecimal, Bool.and_true, Bool.and_eq_true, decide_eq_true_eq] at decimal
  obtain ⟨⟨_, highMost⟩, ⟨_, middleMost⟩, _, lowMost⟩ := decimal
  have whole : Text.Utf8.encode field =
      (Text.Utf8.encode field).take place ++ backslash :: high :: middle :: low :: rest := by
    rw [← bytes, List.take_append_drop]
  have ascii : backslash.toNat < 0x80 := by decide
  -- A byte below 128 is a character of its own, so the backslash and each digit end at a boundary.
  obtain ⟨before, opening, behind, shape, openingCode, isFront, isBack⟩ := Text.exists_parts_of_encode ascii whole
  obtain ⟨first, afterFirst, rfl, firstCode, isBack⟩ := Text.exists_cons_of_encode (by omega) isBack
  obtain ⟨second, afterSecond, rfl, secondCode, isBack⟩ := Text.exists_cons_of_encode (by omega) isBack
  obtain ⟨third, afterThird, rfl, thirdCode, _⟩ := Text.exists_cons_of_encode (by omega) isBack
  refine ⟨first, second, third, firstCode, secondCode, thirdCode, Text.slice_eq_ok_iff.mpr ?_⟩
  have cut : Text.Utf8.encode (before ++ [opening]) = (Text.Utf8.encode field).take place ++ [backslash] := by
    rw [Text.Utf8.encode_append, isFront, Text.encode_cons_of_code ascii openingCode]
    rfl
  have numeral : Text.Utf8.encode [first, second, third] = [high, middle, low] := by
    rw [Text.encode_cons_of_code (by omega) firstCode, Text.encode_cons_of_code (by omega) secondCode,
      Text.encode_cons_of_code (by omega) thirdCode]
    rfl
  refine ⟨before ++ [opening], afterThird, by simp [shape], ?_, ?_⟩
  · rw [cut, List.length_append, List.length_take, Nat.min_eq_left (Nat.le_of_lt inside)]
    rfl
  · rw [numeral]
    rfl

theorem leadingEscape?_eq_none {bytes : List UInt8} (closed : ¬(bytes.head? = some backslash ∧ 3 < bytes.length)) :
    leadingEscape? bytes = none := by
  match bytes with
  | [] => rfl
  | [_] => rfl
  | [_, _] => rfl
  | [_, _, _] => rfl
  | first :: high :: middle :: low :: rest =>
      exact escaped?_eq_none (fun opens => closed ⟨congrArg some opens, by simp⟩) high middle low

/-- The escape at a place is the one at the beginning of the bytes behind it. -/
theorem escapeAt_eq {field : List Char} {place : Nat} (inside : place < (Text.Utf8.encode field).length) :
    escapeAt field place = .ok (leadingEscape? ((Text.Utf8.encode field).drop place)) := by
  have bytes := List.drop_eq_getElem_cons inside
  simp only [escapeAt, Text.byteAt_eq inside, bind, Except.bind]
  split
  next opens =>
    obtain ⟨opens, far⟩ := opens
    rw [opens, List.drop_eq_getElem_cons (show place + 1 < (Text.Utf8.encode field).length by omega),
      List.drop_eq_getElem_cons (show place + 2 < (Text.Utf8.encode field).length by omega),
      List.drop_eq_getElem_cons far] at bytes
    rw [Text.bytesBetween_of_drop (congrArg List.tail bytes)]
    simp only
    rw [bytes]
    split
    next decimal =>
      obtain ⟨first, second, third, firstCode, secondCode, thirdCode, sliced⟩ := exists_numeral inside bytes decimal
      rw [sliced, leadingEscape?, ← readOctal?_digits firstCode secondCode thirdCode decimal]
      rfl
    next other =>
      rw [leadingEscape?, escaped?_of_not_isDecimal (Bool.eq_false_iff.mpr other)]
      rfl
  next closed =>
    have plain : leadingEscape? ((Text.Utf8.encode field).drop place) = none := by
      apply leadingEscape?_eq_none
      intro opens
      obtain ⟨opens, far⟩ := opens
      rw [bytes] at opens
      rw [List.length_drop] at far
      exact closed ⟨Option.some.inj opens, by omega⟩
    rw [plain]
    rfl

namespace Decoding

variable {field : List Char} {decoding : Decoding}

/-- Every step inside the field is taken, and what is still to be decoded goes on where it ends. -/
theorem exists_step (inside : decoding.place < (Text.Utf8.encode field).length) :
    ∃ next, decoding.step field = .ok next ∧ next.place ≤ (Text.Utf8.encode field).length ∧
      next.decoded ++ decode ((Text.Utf8.encode field).drop next.place) =
        decoding.decoded ++ decode ((Text.Utf8.encode field).drop decoding.place) := by
  cases escape : leadingEscape? ((Text.Utf8.encode field).drop decoding.place) with
  | some byte =>
      refine ⟨⟨decoding.place + 4, decoding.decoded ++ [byte]⟩, ?_, ?_, ?_⟩
      · simp only [step, escapeAt_eq inside, escape]
        rfl
      · have four := four_le_of_leadingEscape? escape
        rw [List.length_drop] at four
        simp only
        omega
      · rw [decode_of_leadingEscape? escape, List.drop_drop, List.append_assoc, List.singleton_append]
  | none =>
      have bytes := List.drop_eq_getElem_cons inside
      refine ⟨⟨decoding.place + 1, decoding.decoded ++ [(Text.Utf8.encode field)[decoding.place]]⟩, ?_, inside, ?_⟩
      · simp only [step, escapeAt_eq inside, escape, Text.byteAt_eq inside]
        rfl
      · rw [bytes] at escape
        rw [bytes, decode_of_no_leadingEscape? escape, List.append_assoc, List.singleton_append]

/-- The end of the field is reached, and nothing that is left is decoded otherwise than by `decode`. -/
theorem run_eq (inside : decoding.place ≤ (Text.Utf8.encode field).length) :
    decoding.run field = .ok ⟨(Text.Utf8.encode field).length,
      decoding.decoded ++ decode ((Text.Utf8.encode field).drop decoding.place)⟩ := by
  fun_induction run field decoding with
  | case1 decoding goesOn next taken further ih =>
      obtain ⟨other, takenOther, insideOther, same⟩ := exists_step goesOn
      rw [taken] at takenOther
      cases takenOther
      rw [ih insideOther, same]
  | case2 decoding goesOn refusal refused =>
      obtain ⟨next, taken, _⟩ := exists_step goesOn
      rw [refused] at taken
      cases taken
  | case3 decoding ended =>
      have atEnd : decoding.place = (Text.Utf8.encode field).length := by omega
      rw [← atEnd, List.drop_of_length_le (by omega), decode, List.append_nil]

end Decoding

/-- The bytes of a field after its escapes have been replaced. No access to the field is refused. -/
def unescape (field : List Char) : List UInt8 :=
  match ended : Decoding.start.run field with
  | .ok last => last.decoded
  | .error _ => absurd ended (by simp [Decoding.run_eq, Decoding.start])

theorem unescape_eq (field : List Char) : unescape field = decode (Text.Utf8.encode field) := by
  unfold unescape
  split
  next last ended =>
    rw [Decoding.run_eq (Nat.zero_le _)] at ended
    cases ended
    rfl
  next refused =>
    rw [Decoding.run_eq (Nat.zero_le _)] at refused
    cases refused

end BlockInventory.OctalField
