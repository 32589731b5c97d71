import BlockInventory.Text.Digit

/-!
# Tokens of JSON

How a JSON text is cut into punctuation, strings, numbers and words. A machine reads one character at a time;
its mode says what the character belongs to. Space, tab, line feed and carriage return may stand between tokens.
-/

set_option autoImplicit false

namespace BlockInventory.Json

/-- A token of a JSON text. The text of a string is missing if a surrogate in it stands alone. -/
inductive Token where
  | openArray
  | closeArray
  | openObject
  | closeObject
  | comma
  | colon
  | null
  | boolean (value : Bool)
  | number (spelling : List Char)
  | string (text : Option String)
  deriving DecidableEq

/-- A part of a string: a character, or a code unit that is written as four hexadecimal digits. -/
inductive StringPart where
  | character (character : Char)
  | unit (code : Nat)
  deriving DecidableEq

def isLeadingSurrogate (code : Nat) : Bool := 0xD800 ≤ code && code < 0xDC00

def isTrailingSurrogate (code : Nat) : Bool := 0xDC00 ≤ code && code < 0xE000

/-- The text of a string's parts, if every surrogate stands in a pair. -/
def textOfParts : List StringPart → Option (List Char)
  | [] => some []
  | .character character :: rest => (textOfParts rest).map (character :: ·)
  | .unit leading :: rest =>
    if isLeadingSurrogate leading then
      match rest with
      | .unit trailing :: rest =>
        if isTrailingSurrogate trailing then
          let code := 0x10000 + (leading - 0xD800) * 0x400 + (trailing - 0xDC00)
          (textOfParts rest).map (Char.ofNat code :: ·)
        else none
      | _ => none
    else if isTrailingSurrogate leading then none
    else (textOfParts rest).map (Char.ofNat leading :: ·)

def isSpace (character : Char) : Bool :=
  character == ' ' || character == '\n' || character == '\t' || character == '\r'

def punctuation? : Char → Option Token
  | '[' => some .openArray
  | ']' => some .closeArray
  | '{' => some .openObject
  | '}' => some .closeObject
  | ',' => some .comma
  | ':' => some .colon
  | _ => none

def isBare (character : Char) : Bool :=
  character.isAlphanum || character == '+' || character == '-' || character == '.'

/-- The character for which a backslash and this character stand. -/
def shortEscape? : Char → Option Char
  | '"' => some '"'
  | '\\' => some '\\'
  | '/' => some '/'
  | 'b' => some '\x08'
  | 'f' => some '\x0c'
  | 'n' => some '\n'
  | 'r' => some '\r'
  | 't' => some '\t'
  | _ => none

def isDigits (text : List Char) : Bool :=
  !text.isEmpty && text.all Char.isDigit

/-- An exponent: nothing, or the letter, an optional sign and digits. -/
def isExponent : List Char → Bool
  | [] => true
  | letter :: rest =>
    (letter == 'e' || letter == 'E') &&
      match rest with
      | '+' :: digits => isDigits digits
      | '-' :: digits => isDigits digits
      | digits => isDigits digits

/-- What may follow the whole part of a number: a fraction, then an exponent. -/
def isFraction : List Char → Bool
  | '.' :: rest => isDigits (rest.takeWhile Char.isDigit) && isExponent (rest.dropWhile Char.isDigit)
  | rest => isExponent rest

/-- A number without its sign: the whole part is zero or does not begin with zero. -/
def isUnsignedNumber : List Char → Bool
  | '0' :: rest => isFraction rest
  | text => isDigits (text.takeWhile Char.isDigit) && isFraction (text.dropWhile Char.isDigit)

def isNumber : List Char → Bool
  | '-' :: rest => isUnsignedNumber rest
  | text => isUnsignedNumber text

/-- The token spelled by a run of bare characters. -/
def bareToken? (spelling : List Char) : Option Token :=
  if spelling = ['n', 'u', 'l', 'l'] then some .null
  else if spelling = ['t', 'r', 'u', 'e'] then some (.boolean true)
  else if spelling = ['f', 'a', 'l', 's', 'e'] then some (.boolean false)
  else if isNumber spelling then some (.number spelling)
  else none

namespace Token

/-- What the next character belongs to. Parts and characters that were read stand with the latest first. -/
inductive Mode where
  | between
  | bare (read : List Char)
  | string (read : List StringPart)
  | escape (read : List StringPart)
  /-- Hexadecimal digits of a code unit are being read: how many are still due after the next one, and the value
  of those before it. -/
  | unit (read : List StringPart) (further code : Nat)

/-- Reads a character where a token may begin. -/
def begin (character : Char) : Option (List Token × Mode) :=
  if isSpace character then some ([], .between)
  else if character = '"' then some ([], .string [])
  else if isBare character then some ([], .bare [character])
  else (punctuation? character).map fun token => ([token], .between)

/-- Reads a character: the tokens that it ends or is, and the mode after it. -/
def step : Mode → Char → Option (List Token × Mode)
  | .between, character => begin character
  | .bare read, character =>
    if isBare character then some ([], .bare (character :: read))
    else do
      let token ← bareToken? read.reverse
      let (tokens, mode) ← begin character
      some (token :: tokens, mode)
  | .string read, character =>
    if character = '"' then
      some ([.string ((textOfParts read.reverse).map String.ofList)], .between)
    else if character = '\\' then some ([], .escape read)
    else if character.toNat < 0x20 then none
    else some ([], .string (.character character :: read))
  | .escape read, character =>
    if character = 'u' then some ([], .unit read 3 0)
    else (shortEscape? character).map fun escaped => ([], .string (.character escaped :: read))
  | .unit read further code, character =>
    (Text.hexDigit? character).map fun digit =>
      let code := code * 16 + digit
      match further with
      | 0 => ([], .string (.unit code :: read))
      | further + 1 => ([], .unit read further code)

/-- The tokens that the end of the text ends. -/
def finish : Mode → Option (List Token)
  | .between => some []
  | .bare read => (bareToken? read.reverse).map ([·])
  | _ => none

/-- The tokens of the rest of a text. -/
def scan (mode : Mode) : List Char → Option (List Token)
  | [] => finish mode
  | character :: rest => do
    let (tokens, next) ← step mode character
    let further ← scan next rest
    some (tokens ++ further)

def ofText? (text : List Char) : Option (List Token) :=
  scan .between text

end Token

end BlockInventory.Json
