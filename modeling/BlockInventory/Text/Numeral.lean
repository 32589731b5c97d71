/-!
# Numerals

How a count is read from a text and written to one. A numeral is one or more ASCII digits of a base, with at most one
plus sign before them; any number of leading zeros is allowed. It is read digit by digit, so that no number beyond its
limit is ever made; a decimal count has to fit in a 64-bit word.
-/

set_option autoImplicit false

namespace BlockInventory.Text.Numeral

/-- The digits of a numeral: the text without one leading plus sign. -/
def unsigned : List Char → List Char
  | '+' :: digits => digits
  | text => text

/-- The digits of a base that is not above ten. -/
def isDigitIn (base : Nat) (character : Char) : Bool :=
  '0'.toNat ≤ character.toNat && character.toNat < '0'.toNat + base

/-- The number of some digits with one more behind them, as long as it stays below the limit. -/
def extend? (base limit number : Nat) (digit : Char) : Option Nat :=
  let extended := base * number + (digit.toNat - '0'.toNat)
  if isDigitIn base digit ∧ extended < limit then some extended else none

/-- Reads a numeral whose number is below the limit. -/
def readBelow? (base limit : Nat) (text : List Char) : Option Nat :=
  match unsigned text with
  | [] => none
  | digits => digits.foldlM (extend? base limit) 0

/-- The value of one or more ASCII digits. -/
def ofDigits? (digits : List Char) : Option Nat :=
  if digits ≠ [] ∧ digits.all Char.isDigit then some (Nat.ofDigitChars 10 digits 0) else none

/-- The number as a word, if it fits in 64 bits. -/
def toWord? (number : Nat) : Option UInt64 :=
  if number < UInt64.size then some (UInt64.ofNat number) else none

/-- Reads a decimal numeral whose value fits in a word. -/
def read? (text : List Char) : Option UInt64 :=
  (readBelow? 10 UInt64.size text).map UInt64.ofNat

/-- The shortest numeral of a number: no sign and no leading zeros. -/
def write (number : Nat) : List Char :=
  Nat.toDigits 10 number

theorem ofDigits?_eq_some_iff {digits : List Char} {number : Nat} :
    ofDigits? digits = some number ↔
      digits ≠ [] ∧ (∀ digit ∈ digits, digit.isDigit = true) ∧ Nat.ofDigitChars 10 digits 0 = number := by
  simp [ofDigits?, and_assoc]

private theorem le_ofDigitChars {base : Nat} (positive : 0 < base) (digits : List Char) (number : Nat) :
    number ≤ Nat.ofDigitChars base digits number := by
  induction digits generalizing number with
  | nil => exact Nat.le_refl number
  | cons digit digits ih =>
      rw [Nat.ofDigitChars_cons]
      calc number
        _ ≤ base * number := Nat.le_mul_of_pos_left number positive
        _ ≤ base * number + (digit.toNat - '0'.toNat) := Nat.le_add_right _ _
        _ ≤ _ := ih _

/-- A number that ends below the limit never reaches it on the way, since no digit makes it smaller. -/
theorem foldlM_extend?_eq_some_iff {base limit start number : Nat} (positive : 0 < base) {digits : List Char} :
    digits.foldlM (extend? base limit) start = some number ↔
      (∀ digit ∈ digits, isDigitIn base digit = true) ∧ Nat.ofDigitChars base digits start = number ∧
        (digits = [] ∨ number < limit) := by
  induction digits generalizing start with
  | nil => simp
  | cons digit digits ih =>
      rw [List.foldlM_cons, Option.bind_eq_bind, Option.bind_eq_some_iff, List.forall_mem_cons, Nat.ofDigitChars_cons]
      constructor
      · intro read
        obtain ⟨extended, first, rest⟩ := read
        simp only [extend?, Option.ite_none_right_eq_some, Option.some.injEq] at first
        obtain ⟨⟨isDigit, fits⟩, rfl⟩ := first
        obtain ⟨areDigits, value, bound⟩ := ih.mp rest
        refine ⟨⟨isDigit, areDigits⟩, value, .inr ?_⟩
        rcases bound with rfl | bound
        · exact value ▸ fits
        · exact bound
      · intro written
        obtain ⟨⟨isDigit, areDigits⟩, value, bound⟩ := written
        have fits : number < limit := bound.resolve_left (List.cons_ne_nil _ _)
        have grows := le_ofDigitChars positive digits (base * start + (digit.toNat - '0'.toNat))
        refine ⟨_, if_pos ⟨isDigit, ?_⟩, ih.mpr ⟨areDigits, value, .inr fits⟩⟩
        omega

theorem readBelow?_eq_some_iff {base limit number : Nat} (positive : 0 < base) {text : List Char} :
    readBelow? base limit text = some number ↔
      unsigned text ≠ [] ∧ (∀ digit ∈ unsigned text, isDigitIn base digit = true) ∧
        Nat.ofDigitChars base (unsigned text) 0 = number ∧ number < limit := by
  unfold readBelow?
  split
  next empty => simp [empty]
  next nonempty =>
    rw [foldlM_extend?_eq_some_iff positive, or_iff_right nonempty, and_iff_right nonempty]

theorem isDigitIn_ten (character : Char) : isDigitIn 10 character = character.isDigit := by
  have upper : character.toNat < '0'.toNat + 10 ↔ character.toNat ≤ '9'.toNat := Nat.lt_succ_iff
  simp only [isDigitIn, Char.isDigit, ge_iff_le, UInt32.le_iff_toNat_le, upper]
  rfl

theorem read?_eq_some_iff_ofDigits? {text : List Char} {word : UInt64} :
    read? text = some word ↔ ofDigits? (unsigned text) = some word.toNat := by
  rw [ofDigits?_eq_some_iff, read?, Option.map_eq_some_iff]
  simp only [readBelow?_eq_some_iff (show 0 < 10 by decide), isDigitIn_ten]
  constructor
  · intro read
    obtain ⟨number, ⟨nonempty, areDigits, value, fits⟩, rfl⟩ := read
    exact ⟨nonempty, areDigits, by rw [value, UInt64.toNat_ofNat_of_lt' fits]⟩
  · intro written
    obtain ⟨nonempty, areDigits, value⟩ := written
    exact ⟨word.toNat, ⟨nonempty, areDigits, value, word.toNat_lt_size⟩, UInt64.ofNat_toNat⟩

theorem toWord?_toNat (word : UInt64) : toWord? word.toNat = some word := by
  simp [toWord?, word.toNat_lt_size]

theorem isDigit_of_mem_write {number : Nat} {digit : Char} (member : digit ∈ write number) :
    digit.isDigit = true :=
  Nat.isDigit_of_mem_toDigits (by decide) (by decide) member

theorem write_ne_nil (number : Nat) : write number ≠ [] :=
  Nat.toDigits_ne_nil

theorem head?_write_ne_zero {number : Nat} (positive : 0 < number) : (write number).head? ≠ some '0' := by
  induction number using Nat.strongRecOn with
  | _ number ih =>
      by_cases small : number < 10
      · rw [write, Nat.toDigits_of_lt_base small]
        intro zero
        have digitZero : number.digitChar = '0' := Option.some.inj zero
        exact absurd (Nat.digitChar_eq_zero.mp digitZero) (Nat.ne_of_gt positive)
      · have above : 10 ≤ number := Nat.not_lt.mp small
        have split : write number = write (number / 10) ++ [(number % 10).digitChar] :=
          Nat.toDigits_of_base_le (by decide) above
        have smaller := ih (number / 10) (by omega) (by omega)
        cases leading : write (number / 10) with
        | nil => exact absurd leading (write_ne_nil (number / 10))
        | cons digit digits =>
            rw [leading] at smaller
            rw [split, leading]
            exact smaller

theorem exists_write_eq_cons (number : Nat) :
    ∃ digit digits, write number = digit :: digits ∧ digit.isDigit = true := by
  obtain ⟨digit, digits, shape⟩ := List.exists_cons_of_ne_nil (write_ne_nil number)
  exact ⟨digit, digits, shape, isDigit_of_mem_write (shape ▸ List.mem_cons_self)⟩

theorem write_cases (number : Nat) :
    (number = 0 ∧ write number = ['0']) ∨
      ∃ digit digits, write number = digit :: digits ∧ digit.isDigit = true ∧ digit ≠ '0' := by
  rcases Nat.eq_zero_or_pos number with rfl | positive
  · exact .inl ⟨rfl, rfl⟩
  · obtain ⟨digit, digits, shape, isDigit⟩ := exists_write_eq_cons number
    have leading := head?_write_ne_zero positive
    rw [shape] at leading
    exact .inr ⟨digit, digits, shape, isDigit, fun zero => leading (congrArg some zero)⟩

theorem ofDigits?_write (number : Nat) : ofDigits? (write number) = some number :=
  ofDigits?_eq_some_iff.mpr
    ⟨write_ne_nil number, fun _ => isDigit_of_mem_write, Nat.ofDigitChars_ten_toDigits⟩

theorem read?_write (word : UInt64) : read? (write word.toNat) = some word := by
  have unsigned : unsigned (write word.toNat) = write word.toNat := by
    unfold unsigned
    split
    next sign digits shape =>
      have isDigit := isDigit_of_mem_write (shape ▸ List.mem_cons_self)
      cases isDigit
    next => rfl
  rw [read?_eq_some_iff_ofDigits?, unsigned, ofDigits?_write]

end BlockInventory.Text.Numeral
