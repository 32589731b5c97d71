import BlockInventory.Json.Printer
import BlockInventory.Proofs.Json.Reading
import BlockInventory.Text.Numeral
import Mathlib.Data.List.TakeWhile

/-!
# Written values read back

Every layout of a value spells its tokens, so it is read as the value that was written. Layouts differ only in the
space between tokens. The numbers in the value have to be spelled as numbers; every string and every key may stand
in it.
-/

set_option autoImplicit false

namespace BlockInventory.Json

/-! ## Strings -/

private theorem hexDigit?_digitChar {digit : Nat} (bound : digit < 16) :
    Text.hexDigit? (Nat.digitChar digit) = some digit := by
  revert digit
  decide

private theorem spelled_codeEscape {character : Char} (control : character.toNat < 0x20) :
    (StringPart.unit character.toNat).Spelled (codeEscape character) := by
  have high : Text.hexDigit? (Nat.digitChar (character.toNat / 16 % 16)) = some (character.toNat / 16 % 16) :=
    hexDigit?_digitChar (Nat.mod_lt _ (by decide))
  have low : Text.hexDigit? (Nat.digitChar (character.toNat % 16)) = some (character.toNat % 16) :=
    hexDigit?_digitChar (Nat.mod_lt _ (by decide))
  have zero : Text.hexDigit? '0' = some 0 := rfl
  have spelled := StringPart.Spelled.unit zero zero high low
  have code : ((0 * 16 + 0) * 16 + character.toNat / 16 % 16) * 16 + character.toNat % 16 = character.toNat := by
    omega
  rw [code] at spelled
  exact spelled

/-- An escaped character spells a part of a string that stands for this character. -/
private theorem exists_spelled_escapeChar (character : Char) :
    ∃ part : StringPart, part.Spelled (escapeChar character) ∧
      ∀ parts, textOfParts (part :: parts) = (textOfParts parts).map (character :: ·) := by
  have short {letter : Char} (escaped : shortEscape? letter = some character) :
      ∃ part : StringPart, part.Spelled ['\\', letter] ∧
        ∀ parts, textOfParts (part :: parts) = (textOfParts parts).map (character :: ·) :=
    ⟨.character character, .short escaped, fun _ => rfl⟩
  rw [escapeChar]
  split
  next same =>
    subst same
    exact short rfl
  next notQuote =>
    split
    next same =>
      subst same
      exact short rfl
    next notEscape =>
      -- The five control characters that have a letter.
      repeat
        split
        next same =>
          subst same
          exact short rfl
      split
      next control =>
        refine ⟨.unit character.toNat, spelled_codeEscape control, fun parts => ?_⟩
        have notLeading : isLeadingSurrogate character.toNat = false := by
          simp [isLeadingSurrogate]
          omega
        have notTrailing : isTrailingSurrogate character.toNat = false := by
          simp [isTrailingSurrogate]
          omega
        rw [textOfParts.eq_def]
        simp [notLeading, notTrailing]
      next notControl =>
        exact ⟨.character character, .plain notQuote notEscape (Nat.not_lt.mp notControl), fun _ => rfl⟩

private theorem exists_partsSpelled (text : List Char) :
    ∃ parts, PartsSpelled parts (text.flatMap escapeChar) ∧ textOfParts parts = some text := by
  induction text with
  | nil => exact ⟨[], .nil, rfl⟩
  | cons character text ih =>
      obtain ⟨part, partSpelled, partStands⟩ := exists_spelled_escapeChar character
      obtain ⟨parts, spelled, stand⟩ := ih
      refine ⟨part :: parts, .cons partSpelled spelled, ?_⟩
      rw [partStands, stand]
      rfl

private theorem spelled_writeString (string : Option String) {tokens : List Token} {text : List Char}
    (spelled : Token.Spelled tokens text) :
    Token.Spelled (.string string :: tokens) (writeString string ++ text) := by
  cases string with
  | none =>
      have lone : PartsSpelled [.unit 0xD800] ['\\', 'u', 'd', '8', '0', '0'] :=
        .cons (@StringPart.Spelled.unit 'd' '8' '0' '0' 13 8 0 0 rfl rfl rfl rfl) .nil
      exact .string lone spelled
  | some string =>
      obtain ⟨parts, partsSpelled, stand⟩ := exists_partsSpelled string.toList
      have whole := Token.Spelled.string partsSpelled spelled
      rw [stand] at whole
      simpa [writeString] using whole

/-! ## Pieces of a text -/

namespace Token

/-- Before any text that spells tokens, the text spells these tokens. -/
def Spells (tokens : List Token) (written : List Char) : Prop :=
  ∀ (rest : List Token) (text : List Char), Spelled rest text → Delimited text →
    Spelled (tokens ++ rest) (written ++ text)

/-- No number or word goes on into the text. -/
def Separates (written : List Char) : Prop :=
  ∀ text : List Char, Delimited text → Delimited (written ++ text)

variable {token : Token} {tokens further : List Token} {character : Char} {written behind space : List Char}

namespace Separates

theorem nil : Separates [] := fun _ delimited => delimited

theorem cons (mark : isBare character = Bool.false) : Separates (character :: written) :=
  fun _ _ => delimited_cons mark

theorem space_append (allSpace : ∀ character ∈ space, isSpace character = Bool.true)
    (separates : Separates written) : Separates (space ++ written) := by
  cases space with
  | nil => exact separates
  | cons character space => exact .cons (isBare_of_isSpace (allSpace character List.mem_cons_self))

end Separates

namespace Spells

theorem nil : Spells [] [] := fun _ _ spelled _ => spelled

theorem append (first : Spells tokens written) (second : Spells further behind) (separates : Separates behind) :
    Spells (tokens ++ further) (written ++ behind) := by
  intro rest text spelled delimited
  have whole := first _ _ (second rest text spelled delimited) (separates text delimited)
  rwa [← List.append_assoc, ← List.append_assoc] at whole

theorem punctuation (mark : punctuation? character = some token) (spells : Spells tokens written) :
    Spells (token :: tokens) (character :: written) :=
  fun rest text spelled delimited => .punctuation mark (spells rest text spelled delimited)

theorem space_append (allSpace : ∀ character ∈ space, isSpace character = Bool.true)
    (spells : Spells tokens written) : Spells tokens (space ++ written) := by
  induction space with
  | nil => exact spells
  | cons character space ih =>
      have behind := ih fun other member => allSpace other (List.mem_cons_of_mem character member)
      intro rest text spelled delimited
      exact .space (allSpace character List.mem_cons_self) (behind rest text spelled delimited)

theorem bare (known : BareSpelled token written) : Spells [token] written :=
  fun _ _ spelled delimited => .bare known delimited spelled

theorem string (text : Option String) : Spells [.string text] (writeString text) :=
  fun _ _ spelled _ => spelled_writeString text spelled

end Spells

end Token

/-! ## Numbers -/

theorem isNumber_write (number : Nat) : isNumber (Text.Numeral.write number) = true := by
  have digits : ∀ digit ∈ Text.Numeral.write number, digit.isDigit = true :=
    fun _ => Text.Numeral.isDigit_of_mem_write
  rcases Text.Numeral.write_cases number with ⟨rfl, _⟩ | ⟨first, rest, spelling, isDigit, notZero⟩
  · rfl
  · rw [spelling] at digits ⊢
    have notMinus : first ≠ '-' := by
      rintro rfl
      cases isDigit
    have taken : (first :: rest).takeWhile Char.isDigit = first :: rest :=
      List.takeWhile_eq_self_iff.mpr digits
    have dropped : (first :: rest).dropWhile Char.isDigit = [] := List.dropWhile_eq_nil_iff.mpr digits
    have wholePart : isDigits (first :: rest) = true := by
      rw [isDigits, Bool.and_eq_true, List.all_eq_true]
      exact ⟨rfl, digits⟩
    have unsigned : isUnsignedNumber (first :: rest) = true := by
      rw [isUnsignedNumber.eq_def]
      split
      next same => exact absurd (List.cons.inj same).1 notZero
      next => rw [taken, dropped, wholePart]; rfl
    rw [isNumber.eq_def]
    split
    next same => exact absurd (List.cons.inj same).1 notMinus
    next => exact unsigned

/-! ## Values -/

namespace Value

/-- Every number in the value is spelled as a number. -/
inductive Spellable : Value → Prop where
  | null : Spellable .null
  | boolean (truth : Bool) : Spellable (.boolean truth)
  | number {spelling : List Char} : isNumber spelling = true → Spellable (.number spelling)
  | string (text : Option String) : Spellable (.string text)
  | array {items : List Value} : (∀ item ∈ items, Spellable item) → Spellable (.array items)
  | object {members : List (Option String × Value)} :
      (∀ member ∈ members, Spellable member.2) → Spellable (.object members)

variable {value item : Value} {items : List Value} {key : Option String} {members : List (Option String × Value)}
  {write : Value → List Char} {gap colonGap : List Char}

private theorem separates_furtherItems :
    Token.Separates (items.flatMap fun item => ',' :: gap ++ write item) := by
  cases items with
  | nil => exact .nil
  | cons item items => exact .cons rfl

private theorem spells_furtherItems (gapIsSpace : ∀ character ∈ gap, isSpace character = true)
    (spells : ∀ item ∈ items, Token.Spells item.tokens (write item)) :
    Token.Spells (itemTokens items) (items.flatMap fun item => ',' :: gap ++ write item) := by
  induction items with
  | nil => exact .nil
  | cons item items ih =>
      have first : Token.Spells (.comma :: item.tokens) (',' :: gap ++ write item) :=
        .punctuation rfl (.space_append gapIsSpace (spells item List.mem_cons_self))
      have further := ih fun other member => spells other (List.mem_cons_of_mem item member)
      rw [itemTokens, List.flatMap_cons]
      exact first.append further separates_furtherItems

private theorem spells_member (key : Option String) (colonGapIsSpace : ∀ character ∈ colonGap, isSpace character = true)
    (spells : Token.Spells value.tokens (write value)) :
    Token.Spells (.string key :: .colon :: value.tokens) (writeString key ++ ':' :: colonGap ++ write value) := by
  rw [List.append_assoc]
  exact (Token.Spells.string key).append (.punctuation rfl (.space_append colonGapIsSpace spells)) (.cons rfl)

private theorem separates_furtherMembers : Token.Separates
    (members.flatMap fun member =>
      ',' :: gap ++ (writeString member.1 ++ ':' :: colonGap ++ write member.2)) := by
  cases members with
  | nil => exact .nil
  | cons member members => exact .cons rfl

private theorem spells_furtherMembers (gapIsSpace : ∀ character ∈ gap, isSpace character = true)
    (colonGapIsSpace : ∀ character ∈ colonGap, isSpace character = true)
    (spells : ∀ member ∈ members, Token.Spells member.2.tokens (write member.2)) :
    Token.Spells (memberTokens members)
      (members.flatMap fun member =>
        ',' :: gap ++ (writeString member.1 ++ ':' :: colonGap ++ write member.2)) := by
  induction members with
  | nil => exact .nil
  | cons member members ih =>
      obtain ⟨key, value⟩ := member
      have valueSpells : Token.Spells value.tokens (write value) := spells (key, value) List.mem_cons_self
      have first : Token.Spells (.comma :: .string key :: .colon :: value.tokens)
          (',' :: gap ++ (writeString key ++ ':' :: colonGap ++ write value)) :=
        .punctuation rfl (.space_append gapIsSpace (spells_member key colonGapIsSpace valueSpells))
      have further := ih fun other later => spells other (List.mem_cons_of_mem (key, value) later)
      rw [memberTokens, List.flatMap_cons]
      exact first.append further separates_furtherMembers

/-- A way to write values: what stands before an item or member and before the end of what holds it, at each level,
and what stands behind a colon. -/
structure Layout where
  write : Nat → Value → List Char
  gap : Nat → List Char
  colonGap : List Char
  isSpace_of_mem_gap : ∀ level, ∀ character ∈ gap level, isSpace character = true
  isSpace_of_mem_colonGap : ∀ character ∈ colonGap, isSpace character = true
  write_null : ∀ level, write level .null = ['n', 'u', 'l', 'l']
  write_boolean : ∀ level truth, write level (.boolean truth) = writeBoolean truth
  write_number : ∀ level spelling, write level (.number spelling) = spelling
  write_string : ∀ level text, write level (.string text) = writeString text
  write_array_nil : ∀ level, write level (.array []) = ['[', ']']
  write_array_cons : ∀ level item items, write level (.array (item :: items)) =
    '[' :: gap (level + 1) ++ write (level + 1) item
      ++ (items.flatMap fun item => ',' :: gap (level + 1) ++ write (level + 1) item) ++ (gap level ++ [']'])
  write_object_nil : ∀ level, write level (.object []) = ['\x7b', '\x7d']
  write_object_cons : ∀ level key value members, write level (.object ((key, value) :: members)) =
    '\x7b' :: gap (level + 1) ++ (writeString key ++ ':' :: colonGap ++ write (level + 1) value)
      ++ (members.flatMap fun member =>
        ',' :: gap (level + 1) ++ (writeString member.1 ++ ':' :: colonGap ++ write (level + 1) member.2))
      ++ (gap level ++ ['\x7d'])

namespace Layout

variable (layout : Layout)

private theorem spells_close (level : Nat) {character : Char} {token : Token}
    (mark : punctuation? character = some token) : Token.Spells [token] (layout.gap level ++ [character]) :=
  .space_append (layout.isSpace_of_mem_gap level) (.punctuation mark .nil)

private theorem separates_close (level : Nat) {character : Char} (mark : isBare character = false) :
    Token.Separates (layout.gap level ++ [character]) :=
  .space_append (layout.isSpace_of_mem_gap level) (.cons mark)

theorem spells (spellable : Spellable value) (level : Nat) :
    Token.Spells value.tokens (layout.write level value) := by
  induction spellable generalizing level with
  | null =>
      rw [layout.write_null]
      exact .bare .null
  | boolean truth =>
      rw [layout.write_boolean]
      cases truth with
      | false => exact .bare .false
      | true => exact .bare .true
  | number number =>
      rw [layout.write_number]
      exact .bare (.number number)
  | string text =>
      rw [layout.write_string]
      exact .string text
  | @array items _ spells =>
      cases items with
      | nil =>
          rw [layout.write_array_nil]
          exact .punctuation rfl (.punctuation rfl .nil)
      | cons item items =>
          have first : Token.Spells (.openArray :: item.tokens)
              ('[' :: layout.gap (level + 1) ++ layout.write (level + 1) item) :=
            .punctuation rfl (.space_append (layout.isSpace_of_mem_gap _) (spells item List.mem_cons_self _))
          have further := spells_furtherItems (layout.isSpace_of_mem_gap (level + 1))
            fun other member => spells other (List.mem_cons_of_mem item member) (level + 1)
          rw [layout.write_array_cons, tokens]
          exact (first.append further separates_furtherItems).append (layout.spells_close level rfl)
            (layout.separates_close level rfl)
  | @object members _ spells =>
      cases members with
      | nil =>
          rw [layout.write_object_nil]
          exact .punctuation rfl (.punctuation rfl .nil)
      | cons member members =>
          obtain ⟨key, value⟩ := member
          have valueSpells : Token.Spells value.tokens (layout.write (level + 1) value) :=
            spells (key, value) List.mem_cons_self (level + 1)
          have first : Token.Spells (.openObject :: .string key :: .colon :: value.tokens)
              ('\x7b' :: layout.gap (level + 1)
                ++ (writeString key ++ ':' :: layout.colonGap ++ layout.write (level + 1) value)) :=
            .punctuation rfl (.space_append (layout.isSpace_of_mem_gap _)
              (spells_member key layout.isSpace_of_mem_colonGap valueSpells))
          have further := spells_furtherMembers (layout.isSpace_of_mem_gap (level + 1))
            layout.isSpace_of_mem_colonGap
            fun other later => spells other (List.mem_cons_of_mem (key, value) later) (level + 1)
          rw [layout.write_object_cons, tokens]
          exact (first.append further separates_furtherMembers).append (layout.spells_close level rfl)
            (layout.separates_close level rfl)

theorem spelled_write (spellable : Spellable value) (level : Nat) :
    Token.Spelled value.tokens (layout.write level value) := by
  have spelled := layout.spells spellable level [] [] .nil delimited_nil
  simpa using spelled

theorem ofText?_write (spellable : Spellable value) (level : Nat) :
    ofText? (layout.write level value) = some value :=
  ofText?_of_spelled (layout.spelled_write spellable level)

end Layout

/-! ## The two layouts -/

private theorem compactItems_eq_flatMap (items : List Value) :
    compactItems items = items.flatMap fun item => ',' :: [] ++ item.compact := by
  induction items with
  | nil => rfl
  | cons item items ih => rw [compactItems, ih]; rfl

private theorem compactMembers_eq_flatMap (members : List (Option String × Value)) :
    compactMembers members = members.flatMap fun member =>
      ',' :: [] ++ (writeString member.1 ++ ':' :: [] ++ member.2.compact) := by
  induction members with
  | nil => rfl
  | cons member members ih => rw [compactMembers, ih]; simp

private theorem prettyItems_eq_flatMap (level : Nat) (items : List Value) :
    prettyItems level items = items.flatMap fun item => ',' :: newLine level ++ item.pretty level := by
  induction items with
  | nil => rfl
  | cons item items ih => rw [prettyItems, ih]; rfl

private theorem prettyMembers_eq_flatMap (level : Nat) (members : List (Option String × Value)) :
    prettyMembers level members = members.flatMap fun member =>
      ',' :: newLine level ++ (writeString member.1 ++ ':' :: [' '] ++ member.2.pretty level) := by
  induction members with
  | nil => rfl
  | cons member members ih => rw [prettyMembers, ih]; simp

def compactLayout : Layout where
  write := fun _ => compact
  gap := fun _ => []
  colonGap := []
  isSpace_of_mem_gap := by intro _ _ member; cases member
  isSpace_of_mem_colonGap := by intro _ member; cases member
  write_null := fun _ => rfl
  write_boolean := fun _ _ => rfl
  write_number := fun _ _ => rfl
  write_string := fun _ _ => rfl
  write_array_nil := fun _ => rfl
  write_array_cons := by
    intro _ item items
    rw [compact, compactItems_eq_flatMap]
    rfl
  write_object_nil := fun _ => rfl
  write_object_cons := by
    intro _ key value members
    rw [compact, compactMembers_eq_flatMap]
    simp

def prettyLayout : Layout where
  write := pretty
  gap := newLine
  colonGap := [' ']
  isSpace_of_mem_gap := by
    intro level character member
    rcases List.mem_cons.mp member with rfl | space
    · rfl
    · rw [List.eq_of_mem_replicate space]
      rfl
  isSpace_of_mem_colonGap := by
    intro character member
    rw [List.mem_singleton.mp member]
    rfl
  write_null := fun _ => rfl
  write_boolean := fun _ _ => rfl
  write_number := fun _ _ => rfl
  write_string := fun _ _ => rfl
  write_array_nil := fun _ => rfl
  write_array_cons := by
    intro level item items
    rw [pretty, prettyItems_eq_flatMap]
    simp
  write_object_nil := fun _ => rfl
  write_object_cons := by
    intro level key value members
    rw [pretty, prettyMembers_eq_flatMap]
    simp

theorem Spellable.ofText?_compact (spellable : Spellable value) : ofText? value.compact = some value :=
  compactLayout.ofText?_write spellable 0

theorem Spellable.ofText?_pretty (spellable : Spellable value) (level : Nat) :
    ofText? (value.pretty level) = some value :=
  prettyLayout.ofText?_write spellable level

end Value

end BlockInventory.Json
