import BlockInventory.Json.Token

/-!
# Texts that spell tokens

Which texts spell a sequence of tokens: each token in any of its spellings, with any space before, between and behind
them, where only two numbers or words have to be kept apart. The scanner reads every such text as those tokens.
-/

set_option autoImplicit false

namespace BlockInventory.Json

/-- A spelling of a part of a string. -/
inductive StringPart.Spelled : StringPart → List Char → Prop where
  | plain {character : Char} : character ≠ '"' → character ≠ '\\' → 0x20 ≤ character.toNat →
      Spelled (.character character) [character]
  | short {letter character : Char} : shortEscape? letter = some character →
      Spelled (.character character) ['\\', letter]
  | unit {first second third fourth : Char} {one two three four : Nat} :
      Text.hexDigit? first = some one → Text.hexDigit? second = some two →
      Text.hexDigit? third = some three → Text.hexDigit? fourth = some four →
      Spelled (.unit (((one * 16 + two) * 16 + three) * 16 + four)) ['\\', 'u', first, second, third, fourth]

/-- A spelling of the parts of a string, one after another. -/
inductive PartsSpelled : List StringPart → List Char → Prop where
  | nil : PartsSpelled [] []
  | cons {part : StringPart} {parts : List StringPart} {spelling further : List Char} :
      part.Spelled spelling → PartsSpelled parts further → PartsSpelled (part :: parts) (spelling ++ further)

/-- Numbers and words end only where a character follows that they cannot hold. -/
def Delimited (text : List Char) : Prop :=
  ∀ character ∈ text.head?, isBare character = false

theorem delimited_nil : Delimited [] := by
  intro character first
  cases first

theorem delimited_cons {character : Char} {text : List Char} (mark : isBare character = false) :
    Delimited (character :: text) := by
  intro other first
  cases first
  exact mark

namespace Token

/-- A spelling of a token by characters that belong to numbers and words. -/
inductive BareSpelled : Token → List Char → Prop where
  | null : BareSpelled .null ['n', 'u', 'l', 'l']
  | true : BareSpelled (.boolean true) ['t', 'r', 'u', 'e']
  | false : BareSpelled (.boolean false) ['f', 'a', 'l', 's', 'e']
  | number {spelling : List Char} : isNumber spelling = Bool.true → BareSpelled (.number spelling) spelling

/-- A text that spells tokens. -/
inductive Spelled : List Token → List Char → Prop where
  | nil : Spelled [] []
  | space {tokens : List Token} {character : Char} {text : List Char} :
      isSpace character = Bool.true → Spelled tokens text → Spelled tokens (character :: text)
  | punctuation {token : Token} {tokens : List Token} {character : Char} {text : List Char} :
      punctuation? character = some token → Spelled tokens text → Spelled (token :: tokens) (character :: text)
  | string {tokens : List Token} {parts : List StringPart} {spelling text : List Char} :
      PartsSpelled parts spelling → Spelled tokens text →
      Spelled (.string ((textOfParts parts).map String.ofList) :: tokens) ('"' :: spelling ++ '"' :: text)
  | bare {token : Token} {tokens : List Token} {spelling text : List Char} :
      BareSpelled token spelling → Delimited text → Spelled tokens text →
      Spelled (token :: tokens) (spelling ++ text)

/-! ## Numbers and words -/

theorem isBare_of_isDigit {character : Char} (digit : character.isDigit = Bool.true) :
    isBare character = Bool.true := by
  simp [isBare, Char.isAlphanum, digit]

private theorem isBare_of_isDigits {text : List Char} (digits : isDigits text = Bool.true) :
    ∀ character ∈ text, isBare character = Bool.true := by
  rw [isDigits, Bool.and_eq_true, List.all_eq_true] at digits
  exact fun character member => isBare_of_isDigit (digits.2 character member)

private theorem isBare_of_isExponent {text : List Char} (exponent : isExponent text = Bool.true) :
    ∀ character ∈ text, isBare character = Bool.true := by
  cases text with
  | nil => intro _ member; cases member
  | cons letter rest =>
      simp only [isExponent, Bool.and_eq_true, Bool.or_eq_true, beq_iff_eq] at exponent
      have atLetter : isBare letter = Bool.true := by
        rcases exponent.1 with rfl | rfl <;> rfl
      have behind : ∀ character ∈ rest, isBare character = Bool.true := by
        have digits := exponent.2
        split at digits
        next further => exact List.forall_mem_cons.mpr ⟨rfl, isBare_of_isDigits digits⟩
        next further => exact List.forall_mem_cons.mpr ⟨rfl, isBare_of_isDigits digits⟩
        next => exact isBare_of_isDigits digits
      exact List.forall_mem_cons.mpr ⟨atLetter, behind⟩

private theorem isBare_of_takeWhile_dropWhile {text : List Char}
    (behind : ∀ character ∈ text.dropWhile Char.isDigit, isBare character = Bool.true) :
    ∀ character ∈ text, isBare character = Bool.true := by
  intro character member
  rw [← List.takeWhile_append_dropWhile (p := Char.isDigit) (l := text)] at member
  rcases List.mem_append.mp member with digit | later
  · exact isBare_of_isDigit (List.all_eq_true.mp List.all_takeWhile character digit)
  · exact behind character later

private theorem isBare_of_isFraction {text : List Char} (fraction : isFraction text = Bool.true) :
    ∀ character ∈ text, isBare character = Bool.true := by
  rw [isFraction.eq_def] at fraction
  split at fraction
  next rest =>
    rw [Bool.and_eq_true] at fraction
    have behind := isBare_of_takeWhile_dropWhile (isBare_of_isExponent fraction.2)
    exact List.forall_mem_cons.mpr ⟨rfl, behind⟩
  next => exact isBare_of_isExponent fraction

private theorem isBare_of_isUnsignedNumber {text : List Char} (number : isUnsignedNumber text = Bool.true) :
    ∀ character ∈ text, isBare character = Bool.true := by
  rw [isUnsignedNumber.eq_def] at number
  split at number
  next rest =>
    exact List.forall_mem_cons.mpr ⟨rfl, isBare_of_isFraction number⟩
  next =>
    rw [Bool.and_eq_true] at number
    exact isBare_of_takeWhile_dropWhile (isBare_of_isFraction number.2)

theorem isBare_of_isNumber {text : List Char} (number : isNumber text = Bool.true) :
    ∀ character ∈ text, isBare character = Bool.true := by
  rw [isNumber.eq_def] at number
  split at number
  next rest =>
    exact List.forall_mem_cons.mpr ⟨rfl, isBare_of_isUnsignedNumber number⟩
  next => exact isBare_of_isUnsignedNumber number

variable {token : Token} {tokens : List Token} {character : Char} {spelling text : List Char}

theorem BareSpelled.isBare (spelled : BareSpelled token spelling) :
    ∀ character ∈ spelling, isBare character = Bool.true := by
  cases spelled with
  | null => exact List.all_eq_true.mp rfl
  | true => exact List.all_eq_true.mp rfl
  | false => exact List.all_eq_true.mp rfl
  | number number => exact isBare_of_isNumber number

theorem BareSpelled.ne_nil (spelled : BareSpelled token spelling) : spelling ≠ [] := by
  intro empty
  subst empty
  cases spelled with
  | number number => revert number; decide

theorem BareSpelled.bareToken?_eq (spelled : BareSpelled token spelling) :
    bareToken? spelling = some token := by
  cases spelled with
  | null => rfl
  | true => rfl
  | false => rfl
  | number number =>
      have notWord {word : List Char} (noNumber : isNumber word = Bool.false) : spelling ≠ word := by
        intro same
        rw [same, noNumber] at number
        cases number
      have notNull : spelling ≠ ['n', 'u', 'l', 'l'] := notWord (by decide)
      have notTrue : spelling ≠ ['t', 'r', 'u', 'e'] := notWord (by decide)
      have notFalse : spelling ≠ ['f', 'a', 'l', 's', 'e'] := notWord (by decide)
      rw [bareToken?, if_neg notNull, if_neg notTrue, if_neg notFalse, if_pos number]

/-! ## The scanner on spellings -/

private theorem scan_of_step {mode next : Mode} (stepped : step mode character = some (tokens, next)) :
    scan mode (character :: text) = (scan next text).map (tokens ++ ·) := by
  simp only [scan, stepped, Option.bind_eq_bind, Option.bind_some]
  cases scan next text <;> rfl

private theorem scan_of_silent_step {mode next : Mode} (stepped : step mode character = some ([], next)) :
    scan mode (character :: text) = scan next text := by
  rw [scan_of_step stepped]
  cases scan next text <;> rfl

private theorem step_of_isSpace (space : isSpace character = Bool.true) :
    step .between character = some ([], .between) :=
  if_pos space

theorem isBare_of_isSpace (space : isSpace character = Bool.true) : isBare character = Bool.false := by
  simp only [isSpace, Bool.or_eq_true, beq_iff_eq] at space
  rcases space with ((rfl | rfl) | rfl) | rfl <;> rfl

private theorem step_of_isBare (bare : isBare character = Bool.true) :
    step .between character = some ([], .bare [character]) := by
  have notSpace : isSpace character ≠ Bool.true := by
    intro space
    rw [isBare_of_isSpace space] at bare
    cases bare
  have notQuote : character ≠ '"' := by
    intro quote
    subst quote
    exact absurd bare (by decide)
  rw [step, begin, if_neg notSpace, if_neg notQuote, if_pos bare]

private theorem step_of_punctuation? (mark : punctuation? character = some token) :
    step .between character = some ([token], .between) := by
  rw [punctuation?.eq_def] at mark
  split at mark <;> cases mark <;> rfl

private theorem scan_bare_append {read : List Char} (bare : ∀ character ∈ spelling, isBare character = Bool.true) :
    scan (.bare read) (spelling ++ text) = scan (.bare (spelling.reverse ++ read)) text := by
  induction spelling generalizing read with
  | nil => rfl
  | cons head rest ih =>
      have stepped : step (.bare read) head = some ([], .bare (head :: read)) :=
        if_pos (bare head List.mem_cons_self)
      rw [List.cons_append, scan_of_silent_step stepped,
        ih fun character member => bare character (List.mem_cons_of_mem head member)]
      simp

/-- A number or word ends before a character that it cannot hold, which is then read where a token may begin. -/
private theorem scan_bare_of_delimited {read : List Char} (known : bareToken? read.reverse = some token)
    (delimited : Delimited text) :
    scan (.bare read) text = (scan .between text).map (token :: ·) := by
  cases text with
  | nil => simp [scan, finish, known]
  | cons character rest =>
      have notBare : isBare character = Bool.false := delimited character rfl
      simp only [scan, step, notBare, known]
      cases begin character with
      | none => rfl
      | some begun =>
          obtain ⟨tokens, mode⟩ := begun
          simp only [Bool.false_eq_true, if_false, Option.bind_eq_bind, Option.bind_some]
          cases scan mode rest <;> rfl

theorem BareSpelled.scan_append (spelled : BareSpelled token spelling) (delimited : Delimited text) :
    scan .between (spelling ++ text) = (scan .between text).map (token :: ·) := by
  cases spelling with
  | nil => exact absurd rfl spelled.ne_nil
  | cons head rest =>
      have bare := spelled.isBare
      rw [List.cons_append, scan_of_silent_step (step_of_isBare (bare head List.mem_cons_self)),
        scan_bare_append fun character member => bare character (List.mem_cons_of_mem head member)]
      refine scan_bare_of_delimited ?_ delimited
      simpa using spelled.bareToken?_eq

private theorem scan_part_append {part : StringPart} {read : List StringPart} (spelled : part.Spelled spelling) :
    scan (.string read) (spelling ++ text) = scan (.string (part :: read)) text := by
  cases spelled with
  | @plain character notQuote notEscape notControl =>
      have stepped : step (.string read) character = some ([], .string (.character character :: read)) := by
        rw [step, if_neg notQuote, if_neg notEscape, if_neg (Nat.not_lt.mpr notControl)]
      exact scan_of_silent_step stepped
  | @short letter character escaped =>
      have begun : step (.string read) '\\' = some ([], .escape read) := rfl
      have notUnit : letter ≠ 'u' := by
        intro same
        subst same
        cases escaped
      have ended : step (.escape read) letter = some ([], .string (.character character :: read)) := by
        rw [step, if_neg notUnit, escaped]
        rfl
      exact (scan_of_silent_step begun).trans (scan_of_silent_step ended)
  | @unit first second third fourth one two three four firstRead secondRead thirdRead fourthRead =>
      have begun : step (.string read) '\\' = some ([], .escape read) := rfl
      have named : step (.escape read) 'u' = some ([], .unit read 3 0) := rfl
      have afterFirst : step (.unit read 3 0) first = some ([], .unit read 2 one) := by
        simp [step, firstRead]
      have afterSecond : step (.unit read 2 one) second = some ([], .unit read 1 (one * 16 + two)) := by
        simp [step, secondRead]
      have afterThird : step (.unit read 1 (one * 16 + two)) third
          = some ([], .unit read 0 ((one * 16 + two) * 16 + three)) := by
        simp [step, thirdRead]
      have afterFourth : step (.unit read 0 ((one * 16 + two) * 16 + three)) fourth
          = some ([], .string (.unit (((one * 16 + two) * 16 + three) * 16 + four) :: read)) := by
        simp [step, fourthRead]
      simp only [List.cons_append, List.nil_append]
      rw [scan_of_silent_step begun, scan_of_silent_step named, scan_of_silent_step afterFirst,
        scan_of_silent_step afterSecond, scan_of_silent_step afterThird, scan_of_silent_step afterFourth]

private theorem scan_parts_append {parts read : List StringPart} (spelled : PartsSpelled parts spelling) :
    scan (.string read) (spelling ++ text) = scan (.string (parts.reverse ++ read)) text := by
  induction spelled generalizing read with
  | nil => rfl
  | @cons part parts spelling further partSpelled _ ih =>
      rw [List.append_assoc, scan_part_append partSpelled, ih]
      simp

theorem scan_string_append {parts : List StringPart} (spelled : PartsSpelled parts spelling) :
    scan .between ('"' :: spelling ++ '"' :: text)
      = (scan .between text).map (.string ((textOfParts parts).map String.ofList) :: ·) := by
  have begun : step .between '"' = some ([], .string []) := rfl
  have ended : step (.string parts.reverse) '"'
      = some ([.string ((textOfParts parts).map String.ofList)], .between) := by
    simp [step]
  rw [List.cons_append, scan_of_silent_step begun, scan_parts_append spelled, List.append_nil,
    scan_of_step ended]
  rfl

/-- The scanner reads every text that spells tokens as those tokens. -/
theorem Spelled.ofText?_eq (spelled : Spelled tokens text) : ofText? text = some tokens := by
  rw [ofText?]
  induction spelled with
  | nil => rfl
  | space space _ ih =>
      rw [scan_of_silent_step (step_of_isSpace space), ih]
  | punctuation mark _ ih =>
      rw [scan_of_step (step_of_punctuation? mark), ih]
      rfl
  | string parts _ ih =>
      rw [scan_string_append parts, ih]
      rfl
  | bare token delimited _ ih =>
      rw [token.scan_append delimited, ih]
      rfl

end Token

end BlockInventory.Json
