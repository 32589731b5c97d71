/-!
# Dates and times of TOML

A moment is a date, a time of day, or both with a `T` or one space between them; a date with a time may end with its
offset from universal time. Seconds may be left out, and a fraction of a second has any number of digits.
-/

set_option autoImplicit false

namespace BlockInventory.Toml

def twoDigits? (tens units : Char) : Option Nat :=
  if tens.isDigit ∧ units.isDigit then some ((tens.toNat - '0'.toNat) * 10 + (units.toNat - '0'.toNat))
  else none

def isLeapYear (year : Nat) : Bool :=
  year % 4 == 0 && (year % 100 != 0 || year % 400 == 0)

def daysInMonth (year month : Nat) : Nat :=
  match month with
  | 2 => if isLeapYear year then 29 else 28
  | 4 | 6 | 9 | 11 => 30
  | _ => 31

/-- Reads a date that the calendar has, and gives the text after it. -/
def skipDate? : List Char → Option (List Char)
  | century :: century' :: year :: year' :: '-' :: month :: month' :: '-' :: day :: day' :: rest => do
    let century ← twoDigits? century century'
    let year ← twoDigits? year year'
    let month ← twoDigits? month month'
    let day ← twoDigits? day day'
    if 1 ≤ month ∧ month ≤ 12 ∧ 1 ≤ day ∧ day ≤ daysInMonth (century * 100 + year) month then some rest
    else none
  | _ => none

/-- The text after a fraction of a second, if one is there. -/
def skipSecondFraction? : List Char → Option (List Char)
  | '.' :: rest =>
    match rest with
    | digit :: _ => if digit.isDigit then some (rest.dropWhile Char.isDigit) else none
    | [] => none
  | rest => some rest

/-- The text after the seconds, if they are there. The last minute of a day may have sixty. -/
def skipSeconds? : List Char → Option (List Char)
  | ':' :: tens :: units :: rest => do
    let seconds ← twoDigits? tens units
    if seconds ≤ 60 then skipSecondFraction? rest else none
  | rest => some rest

def skipMinutes? : List Char → Option (List Char)
  | hour :: hour' :: ':' :: minute :: minute' :: rest => do
    let hour ← twoDigits? hour hour'
    let minute ← twoDigits? minute minute'
    if hour ≤ 23 ∧ minute ≤ 59 then some rest else none
  | _ => none

def skipTime? (text : List Char) : Option (List Char) :=
  (skipMinutes? text).bind skipSeconds?

/-- An offset from universal time, or nothing. -/
def isOffset : List Char → Bool
  | [] => true
  | ['Z'] => true
  | ['z'] => true
  | '+' :: rest => skipMinutes? rest = some []
  | '-' :: rest => skipMinutes? rest = some []
  | _ => false

/-- A date, perhaps with a time and an offset. -/
def isDated (text : List Char) : Bool :=
  match skipDate? text with
  | some [] => true
  | some (separator :: rest) =>
    (separator == 'T' || separator == 't' || separator == ' ') &&
      match skipTime? rest with
      | some offset => isOffset offset
      | none => false
  | none => false

def isMoment (text : List Char) : Bool :=
  isDated text || skipTime? text = some []

end BlockInventory.Toml
