import BlockInventory.Text.Digit

/-!
# Numbers of TOML

Integers in four bases and decimal fractions. Underscores may stand between digits. Integers are limited to the
128-bit words, signed below zero and unsigned above; a fraction may not be so large that it rounds to infinity.
-/

set_option autoImplicit false

namespace BlockInventory.Toml

/-- The digits in groups of one or more with underscores between them. -/
def ungroup? (isDigit : Char → Bool) (text : List Char) : Option (List Char) :=
  let groups := text.splitOn '_'
  if groups.all fun group => !group.isEmpty && group.all isDigit then some groups.flatten else none

def digitsValue (base : Nat) (digits : List Char) : Nat :=
  digits.foldl (fun value digit => value * base + (Text.hexDigit? digit).getD 0) 0

def isDigitOf (base : Nat) (character : Char) : Bool :=
  match Text.hexDigit? character with
  | some digit => digit < base
  | none => false

def readGroups? (base : Nat) (text : List Char) : Option Nat :=
  (ungroup? (isDigitOf base) text).map (digitsValue base)

/-- A whole number in decimal digits: it is zero or does not begin with zero. -/
def readDecimal? (text : List Char) : Option Nat :=
  match text with
  | '0' :: _ :: _ => none
  | _ => readGroups? 10 text

/-- The sign of a number and the rest: whether it is below zero. -/
def splitSign : List Char → Bool × List Char
  | '-' :: rest => (true, rest)
  | '+' :: rest => (false, rest)
  | text => (false, text)

/-- Reads an integer in any base. Only decimal integers have a sign. -/
def readInteger? (text : List Char) : Option Int :=
  match text with
  | '0' :: 'x' :: digits => (readGroups? 16 digits).map Int.ofNat
  | '0' :: 'o' :: digits => (readGroups? 8 digits).map Int.ofNat
  | '0' :: 'b' :: digits => (readGroups? 2 digits).map Int.ofNat
  | _ =>
    let (negative, digits) := splitSign text
    (readDecimal? digits).map fun value => if negative then -(value : Int) else value

/-- The integers that may stand in a document. -/
def isInRange (value : Int) : Bool :=
  -Int.ofNat (Nat.pow 2 127) ≤ value && value < Int.ofNat (Nat.pow 2 128)

/-- A decimal fraction: an integer times a power of ten. -/
structure Decimal where
  mantissa : Nat
  exponent : Int

/-- The numbers from here on are rounded to infinity by binary fractions of 64 bits. -/
def overflowBound : Nat := Nat.pow 2 1024 - Nat.pow 2 970

/-- A decimal that can be rounded to a finite binary fraction of 64 bits. With more than 310 digits before the point
it cannot, unless it is zero. -/
def Decimal.isFinite (decimal : Decimal) : Bool :=
  if decimal.mantissa = 0 then true
  else
    let digits : Int := (Nat.toDigits 10 decimal.mantissa).length
    if 310 < digits + decimal.exponent then false
    else if 0 ≤ decimal.exponent then
      decimal.mantissa * Nat.pow 10 decimal.exponent.toNat < overflowBound
    else if digits + decimal.exponent ≤ 0 then true
    else decimal.mantissa < overflowBound * Nat.pow 10 (-decimal.exponent).toNat

/-- The text before the first character that separates, and the text after it. -/
def splitAtFirst? (separates : Char → Bool) (text : List Char) : Option (List Char × List Char) :=
  match text.dropWhile (!separates ·) with
  | _ :: after => some (text.takeWhile (!separates ·), after)
  | [] => none

def readExponent? (text : List Char) : Option Int :=
  let (negative, digits) := splitSign text
  (readGroups? 10 digits).map fun value => if negative then -(value : Int) else value

/-- Reads an unsigned number with a fraction, an exponent, or both. -/
def readDecimalFraction? (text : List Char) : Option Decimal := do
  let (significand, exponent) ← match splitAtFirst? (fun c => c == 'e' || c == 'E') text with
    | some (significand, exponent) => (readExponent? exponent).map fun value => (significand, some value)
    | none => some (text, none)
  match splitAtFirst? (· == '.') significand, exponent with
  | some (whole, fraction), _ =>
    let _ ← readDecimal? whole
    let wholeDigits ← ungroup? Char.isDigit whole
    let fractionDigits ← ungroup? Char.isDigit fraction
    some ⟨digitsValue 10 (wholeDigits ++ fractionDigits), exponent.getD 0 - fractionDigits.length⟩
  | none, some exponent => (readDecimal? significand).map fun mantissa => ⟨mantissa, exponent⟩
  | none, none => none

/-- A fraction, infinity or the absence of a number, with an optional sign. -/
def isFraction (text : List Char) : Bool :=
  let unsigned := (splitSign text).2
  unsigned = ['i', 'n', 'f'] || unsigned = ['n', 'a', 'n'] ||
    match readDecimalFraction? unsigned with
    | some decimal => decimal.isFinite
    | none => false

end BlockInventory.Toml
