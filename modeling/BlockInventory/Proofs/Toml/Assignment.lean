import BlockInventory.Text.Blank
import BlockInventory.Text.Numeral
import BlockInventory.Toml.Document
import Mathlib.Data.List.TakeWhile

/-!
# Assignments of numbers

A line that gives a number to a bare key. A number in decimal digits without leading zeros is read as itself whatever
its size; only then is it asked whether a document may hold it.
-/

set_option autoImplicit false

namespace BlockInventory.Toml

/-! ## Digits -/

theorem hexDigit?_of_isDigit {digit : Char} (isDigit : digit.isDigit = true) :
    Text.hexDigit? digit = some (digit.toNat - '0'.toNat) := by
  have range : '0' ≤ digit ∧ digit ≤ '9' := by
    simpa [Char.isDigit, Char.le_def] using isDigit
  rw [Text.hexDigit?, if_pos range]

theorem isDigitOf_of_isDigit {digit : Char} (isDigit : digit.isDigit = true) : isDigitOf 10 digit = true := by
  have range : 48 ≤ digit.toNat ∧ digit.toNat ≤ 57 := by
    simpa [Char.isDigit, UInt32.le_iff_toNat_le] using isDigit
  have zero : '0'.toNat = 48 := rfl
  simp only [isDigitOf, hexDigit?_of_isDigit isDigit, decide_eq_true_eq, zero]
  omega

theorem digitsValue_eq_ofDigitChars {digits : List Char} (allDigits : ∀ digit ∈ digits, digit.isDigit = true) :
    digitsValue 10 digits = Nat.ofDigitChars 10 digits 0 := by
  have fold (value : Nat) : digits.foldl (fun value digit => value * 10 + (Text.hexDigit? digit).getD 0) value =
      Nat.ofDigitChars 10 digits value := by
    induction digits generalizing value with
    | nil => rfl
    | cons digit digits ih =>
        obtain ⟨isDigit, others⟩ := List.forall_mem_cons.mp allDigits
        rw [List.foldl_cons, ih others, hexDigit?_of_isDigit isDigit, Option.getD_some, Nat.mul_comm]
        rfl
  exact fold 0

theorem readGroups?_of_isDigit {digits : List Char} (nonempty : digits ≠ [])
    (allDigits : ∀ digit ∈ digits, digit.isDigit = true) :
    readGroups? 10 digits = some (Nat.ofDigitChars 10 digits 0) := by
  have noSeparator : '_' ∉ digits := by
    intro member
    have isDigit := allDigits '_' member
    cases isDigit
  have allInBase : digits.all (isDigitOf 10) = true :=
    List.all_eq_true.mpr fun digit member => isDigitOf_of_isDigit (allDigits digit member)
  simp [readGroups?, ungroup?, List.splitOn_eq_singleton noSeparator, nonempty, allInBase,
    digitsValue_eq_ofDigitChars allDigits]

/-! ## Decimal numbers -/

section Write

open Text.Numeral (write write_cases)

variable (number : Nat)

theorem readDecimal?_write : readDecimal? (write number) = some number := by
  have groups : readGroups? 10 (write number) = some number := by
    rw [readGroups?_of_isDigit (Text.Numeral.write_ne_nil number) fun _ => Text.Numeral.isDigit_of_mem_write]
    exact congrArg some Nat.ofDigitChars_ten_toDigits
  rcases write_cases number with ⟨rfl, _⟩ | ⟨digit, digits, shape, _, notZero⟩
  · rfl
  · rw [← groups, shape]
    unfold readDecimal?
    split
    next same => cases same; exact absurd rfl notZero
    next => rfl

theorem readInteger?_write : readInteger? (write number) = some (number : Int) := by
  rcases write_cases number with ⟨rfl, _⟩ | ⟨digit, digits, shape, isDigit, notZero⟩
  · rfl
  · have decimal := readDecimal?_write number
    rw [shape] at decimal ⊢
    have unsigned : splitSign (digit :: digits) = (false, digit :: digits) := by
      unfold splitSign
      split
      next same => cases same; cases isDigit
      next same => cases same; cases isDigit
      next => rfl
    unfold readInteger?
    split
    next same => cases same; exact absurd rfl notZero
    next same => cases same; exact absurd rfl notZero
    next same => cases same; exact absurd rfl notZero
    next => simp [unsigned, decimal]

theorem ofScalar?_write :
    Value.ofScalar? (write number) = if isInRange number then some (.integer number) else none := by
  have notWord {word : List Char} (letter : word.head?.all (!·.isDigit)) : write number ≠ word := by
    rintro rfl
    obtain ⟨digit, digits, shape, isDigit⟩ := Text.Numeral.exists_write_eq_cons number
    simp [shape, isDigit] at letter
  unfold Value.ofScalar?
  rw [if_neg (notWord (by decide)), if_neg (notWord (by decide)), readInteger?_write]

end Write

theorem readValue_of_isScalarCharacter {first : Char} (scalar : isScalarCharacter first = true) (most depth : Nat)
    (text : List Char) :
    readValue most depth (first :: text) =
      (Value.ofScalar? (splitScalar (first :: text)).1).map fun value => (value, (splitScalar (first :: text)).2) := by
  unfold readValue
  split
  next same => cases same
  next same => cases same; cases scalar
  next same => cases same; cases scalar
  next same => cases same; cases scalar
  next same => cases same; cases scalar
  next same => cases same; cases scalar
  next same => cases same; cases scalar
  next => rfl

theorem splitScalar_line {spelling : List Char} (scalar : ∀ character ∈ spelling, isScalarCharacter character = true)
    (rest : List Char) : splitScalar (spelling ++ '\n' :: rest) = (spelling, '\n' :: rest) := by
  unfold splitScalar
  rw [Text.takeWhile_append_cons scalar rfl, Text.dropWhile_append_cons scalar rfl]
  rfl

theorem readValue_write (number most depth : Nat) (rest : List Char) :
    readValue most depth (Text.Numeral.write number ++ '\n' :: rest) =
      (Value.ofScalar? (Text.Numeral.write number)).map fun value => (value, '\n' :: rest) := by
  have scalar : ∀ digit ∈ Text.Numeral.write number, isScalarCharacter digit = true := by
    intro digit member
    simp [isScalarCharacter, Char.isAlphanum, Text.Numeral.isDigit_of_mem_write member]
  have split := splitScalar_line scalar rest
  obtain ⟨digit, digits, shape, _⟩ := Text.Numeral.exists_write_eq_cons number
  rw [shape] at scalar split ⊢
  rw [List.cons_append] at split ⊢
  rw [readValue_of_isScalarCharacter (scalar digit List.mem_cons_self), split]

/-! ## Bare keys -/

structure BareKey where
  letters : List Char
  letters_ne_nil : letters ≠ []
  letters_bare : ∀ letter ∈ letters, isBareKey letter = true

section Bare

variable {first : Char} (bare : isBareKey first = true)

include bare

theorem skipSpace_bare (text : List Char) : skipSpace (first :: text) = first :: text := by
  apply List.dropWhile_cons_of_neg
  intro space
  simp only [isSpace, Bool.or_eq_true, beq_iff_eq] at space
  rcases space with rfl | rfl <;> cases bare

theorem lineEnd?_bare (text : List Char) : lineEnd? (first :: text) = none := by
  have noComment : skipComment (first :: text) = first :: text := by
    unfold skipComment
    split
    next same => cases same; cases bare
    next => rfl
  rw [lineEnd?, skipSpace_bare bare, noComment]
  unfold newLine?
  split
  next same => cases same
  next =>
    split
    next same => cases same; cases bare
    next same => cases same; cases bare
    next => rfl

end Bare

namespace BareKey

variable (key : BareKey)

def name : String :=
  String.ofList key.letters

theorem exists_letters_eq_cons : ∃ first others, key.letters = first :: others ∧ isBareKey first = true := by
  obtain ⟨first, others, shape⟩ := List.exists_cons_of_ne_nil key.letters_ne_nil
  exact ⟨first, others, shape, key.letters_bare first (shape ▸ List.mem_cons_self)⟩

theorem readKey_eq {next : Char} (ends : isBareKey next = false) (rest : List Char) :
    readKey (key.letters ++ next :: rest) = some (key.name, next :: rest) := by
  have taken := Text.takeWhile_append_cons key.letters_bare ends rest
  have left := Text.dropWhile_append_cons key.letters_bare ends rest
  obtain ⟨first, others, shape, bare⟩ := key.exists_letters_eq_cons
  rw [shape] at taken left ⊢
  unfold readKey
  split
  next same => cases same; cases bare
  next same => cases same; cases bare
  next => rw [taken, left, name, shape]

theorem readKeyPath_eq {next : Char} (ends : isBareKey next = false) {rest text : List Char}
    (behind : skipSpace (next :: rest) = text) (undotted : text.head? ≠ some '.') :
    readKeyPath (key.letters ++ next :: rest) = some ([key.name], text) := by
  have atOnce : skipSpace (key.letters ++ next :: rest) = key.letters ++ next :: rest := by
    obtain ⟨first, others, shape, bare⟩ := key.exists_letters_eq_cons
    rw [shape]
    exact skipSpace_bare bare _
  unfold readKeyPath longestKeyPath readKeys
  simp only [atOnce, key.readKey_eq ends, behind, Option.bind_eq_bind, Option.bind_some]
  split
  next => exact absurd rfl undotted
  next => rfl

end BareKey

/-! ## Assignments -/

/-- A line that gives a number to a key. -/
def assignmentLine (key : BareKey) (number : Nat) : List Char :=
  key.letters ++ ' ' :: '=' :: ' ' :: (Text.Numeral.write number ++ ['\n'])

theorem exists_assignmentLine_eq_cons (key : BareKey) (number : Nat) :
    ∃ first others, assignmentLine key number = first :: others ∧ isBareKey first = true := by
  obtain ⟨first, others, shape, bare⟩ := key.exists_letters_eq_cons
  rw [assignmentLine, shape]
  exact ⟨_, _, rfl, bare⟩

theorem readAssignment_assignmentLine (key : BareKey) (number most depth : Nat) (rest : List Char) :
    readAssignment (fun text => some (skipSpace text)) (readValue most depth) (assignmentLine key number ++ rest) =
      if isInRange number then some (([key.name], .integer number), '\n' :: rest) else none := by
  have shape : assignmentLine key number ++ rest =
      key.letters ++ ' ' :: '=' :: ' ' :: (Text.Numeral.write number ++ '\n' :: rest) := by
    simp only [assignmentLine, List.append_assoc, List.cons_append, List.nil_append]
  have path (text : List Char) : readKeyPath (key.letters ++ ' ' :: '=' :: text) = some ([key.name], '=' :: text) :=
    key.readKeyPath_eq (by decide) rfl (by simp)
  have around (text : List Char) : skipSpace ('=' :: text) = '=' :: text := rfl
  have behind : skipSpace (' ' :: (Text.Numeral.write number ++ '\n' :: rest)) =
      Text.Numeral.write number ++ '\n' :: rest := by
    obtain ⟨digit, digits, shape, isDigit⟩ := Text.Numeral.exists_write_eq_cons number
    have isBare : isBareKey digit = true := by simp [isBareKey, Char.isAlphanum, isDigit]
    rw [shape]
    exact skipSpace_bare isBare _
  simp only [readAssignment, shape, path, around, behind, readValue_write, ofScalar?_write, Option.bind_eq_bind,
    Option.bind_some]
  split <;> rfl

namespace Statement

theorem read?_assignmentLine (key : BareKey) (number most : Nat) (rest : List Char) :
    read? most (assignmentLine key number ++ rest) =
      if isInRange number then some (.assign [key.name] (.integer number), '\n' :: rest) else none := by
  have assigned := readAssignment_assignmentLine key number most deepest rest
  obtain ⟨first, others, shape, bare⟩ := exists_assignmentLine_eq_cons key number
  rw [shape, List.cons_append] at assigned ⊢
  unfold read?
  split
  next same => obtain rfl := (List.cons.inj same).1; cases bare
  next same => obtain rfl := (List.cons.inj same).1; cases bare
  next =>
    rw [assigned]
    split <;> rfl

theorem readLines_of_lineEnd? {text rest : List Char} (nonempty : text ≠ []) (ends : lineEnd? text = some rest)
    (most left : Nat) : readLines most (left + 1) text = readLines most left rest := by
  rw [readLines]
  · simp only [ends]
  · exact nonempty

theorem readLines_of_goesOn {text : List Char} (nonempty : text ≠ []) (goesOn : lineEnd? text = none)
    (most left : Nat) :
    readLines most (left + 1) text = (read? most (skipSpace text)).bind fun read =>
      (lineEnd? read.2).bind fun behind => (readLines most left behind).map (read.1 :: ·) := by
  rw [readLines]
  · simp only [goesOn, Option.bind_eq_bind, Option.map_eq_bind, Function.comp_def]
  · exact nonempty

theorem readLines_assignmentLine (key : BareKey) (number most left : Nat) (rest : List Char) :
    readLines most (left + 1) (assignmentLine key number ++ rest) =
      if isInRange number then (readLines most left rest).map (.assign [key.name] (.integer number) :: ·)
      else none := by
  have read := read?_assignmentLine key number most rest
  have ended : lineEnd? ('\n' :: rest) = some rest := rfl
  obtain ⟨first, others, shape, bare⟩ := exists_assignmentLine_eq_cons key number
  rw [shape, List.cons_append] at read ⊢
  rw [readLines_of_goesOn (List.cons_ne_nil _ _) (lineEnd?_bare bare _), skipSpace_bare bare, read]
  split
  · simp only [Option.bind_some, ended]
  · rfl

end Statement

end BlockInventory.Toml
