/-!
# Octal fields

In a mount table a byte that would break a field is written as a backslash and three octal digits. Decoding
goes from left to right and never looks at a decoded byte again. A backslash that does not begin such an
escape, and an escape above `\377`, stand for themselves.
-/

set_option autoImplicit false

namespace BlockInventory.OctalField

def backslash : UInt8 := 0x5C

def digit? (byte : UInt8) : Option Nat :=
  if 0x30 ≤ byte.toNat ∧ byte.toNat ≤ 0x37 then some (byte.toNat - 0x30) else none

/-- The byte for which four bytes stand if they are an escape. -/
def escaped? (first high middle low : UInt8) : Option UInt8 :=
  match digit? high, digit? middle, digit? low with
  | some high, some middle, some low =>
    let value := high * 64 + middle * 8 + low
    if first = backslash ∧ value < 256 then some (UInt8.ofNat value) else none
  | _, _, _ => none

/-- The bytes of a field after its escapes have been replaced. -/
def decode : List UInt8 → List UInt8
  | first :: high :: middle :: low :: rest =>
    match escaped? first high middle low with
    | some byte => byte :: decode rest
    | none => first :: decode (high :: middle :: low :: rest)
  | first :: rest => first :: decode rest
  | [] => []

theorem digit?_eq_some_iff {byte : UInt8} {digit : Nat} :
    digit? byte = some digit ↔ (0x30 ≤ byte.toNat ∧ byte.toNat ≤ 0x37) ∧ byte.toNat - 0x30 = digit := by
  rw [digit?, Option.ite_none_right_eq_some, Option.some.injEq]

theorem escaped?_eq_some_iff_digits {first high middle low byte : UInt8} :
    escaped? first high middle low = some byte ↔
      ∃ hundreds tens ones, digit? high = some hundreds ∧ digit? middle = some tens ∧ digit? low = some ones ∧
        (first = backslash ∧ hundreds * 64 + tens * 8 + ones < 256) ∧
          UInt8.ofNat (hundreds * 64 + tens * 8 + ones) = byte := by
  constructor
  · intro escape
    unfold escaped? at escape
    split at escape
    next hundreds tens ones highIs middleIs lowIs =>
      rw [Option.ite_none_right_eq_some, Option.some.injEq] at escape
      exact ⟨hundreds, tens, ones, highIs, middleIs, lowIs, escape⟩
    next => cases escape
  · intro digits
    obtain ⟨hundreds, tens, ones, highIs, middleIs, lowIs, opens, rfl⟩ := digits
    rw [escaped?, highIs, middleIs, lowIs]
    exact if_pos opens

theorem decode_escaped {first high middle low byte : UInt8} (rest : List UInt8)
    (escape : escaped? first high middle low = some byte) :
    decode (first :: high :: middle :: low :: rest) = byte :: decode rest := by
  rw [decode, escape]

theorem escaped?_eq_none {first : UInt8} (plain : first ≠ backslash) (high middle low : UInt8) :
    escaped? first high middle low = none := by
  rw [Option.eq_none_iff_forall_ne_some]
  intro byte escape
  obtain ⟨_, _, _, _, _, _, ⟨opens, _⟩, _⟩ := escaped?_eq_some_iff_digits.mp escape
  exact plain opens

/-- A byte that begins no escape stands for itself. -/
theorem decode_cons {first : UInt8} (plain : first ≠ backslash) (rest : List UInt8) :
    decode (first :: rest) = first :: decode rest := by
  match rest with
  | [] => rfl
  | [_] => rfl
  | [_, _] => rfl
  | high :: middle :: low :: _ => rw [decode, escaped?_eq_none plain high middle low]

theorem decode_append {plain : List UInt8} (absent : backslash ∉ plain) (rest : List UInt8) :
    decode (plain ++ rest) = plain ++ decode rest := by
  induction plain with
  | nil => rfl
  | cons first plain ih =>
      rw [List.mem_cons, not_or] at absent
      rw [List.cons_append, decode_cons (Ne.symm absent.1), ih absent.2, List.cons_append]

theorem decode_ne_nil {bytes : List UInt8} (nonempty : bytes ≠ []) : decode bytes ≠ [] := by
  unfold decode
  split
  · split <;> exact List.cons_ne_nil _ _
  · exact List.cons_ne_nil _ _
  · exact nonempty

end BlockInventory.OctalField
