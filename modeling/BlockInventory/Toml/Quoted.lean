import BlockInventory.Text.Digit
import BlockInventory.Toml.Layout

/-!
# Quoted text in TOML

Text in double quotes, where a backslash begins an escape, and text in single quotes, where it does not; both on one
line, or between triple quotes on any number of lines. Every reader takes the text after the opening quotes and gives
the content with what follows the closing ones.
-/

set_option autoImplicit false

namespace BlockInventory.Toml

/-- Content and the text after it. -/
abbrev Quoted := Option (List Char × List Char)

def Quoted.cons (character : Char) (quoted : Quoted) : Quoted :=
  quoted.map fun (content, rest) => (character :: content, rest)

/-- The character for which a backslash and this character stand. -/
def shortEscape? : Char → Option Char
  | 'b' => some '\x08'
  | 't' => some '\t'
  | 'n' => some '\n'
  | 'f' => some '\x0c'
  | 'r' => some '\r'
  | 'e' => some '\x1b'
  | '"' => some '"'
  | '\\' => some '\\'
  | _ => none

/-- How many hexadecimal digits follow the first one in an escape that begins with this character. -/
def longEscape? : Char → Option Nat
  | 'x' => some 1
  | 'u' => some 3
  | 'U' => some 7
  | _ => none

def characterOf? (code : Nat) : Option Char :=
  if code.isValidChar then some (Char.ofNat code) else none

/-- Where a reader of quoted text stands. -/
inductive QuoteMode where
  | plain
  | escape
  /-- In an escape: how many digits are due after the next one, and the value of those before it. -/
  | code (further value : Nat)
  /-- After a backslash at the end of a line: blank characters are passed over. A line end has to come, unless
  `seen` says that it came. -/
  | continuation (seen : Bool)
  /-- After a carriage return, which a line feed has to follow; `kept` says whether it belongs to the content. -/
  | carriageReturn (kept : Bool)
  /-- After this many quotes that may belong to the content or close it. -/
  | quotes (count : Nat)

/-- Reads an escape's character after the backslash: the character it stands for at once, or the mode that reads its
digits. -/
def escapeStep (character : Char) : Option (Option Char × QuoteMode) :=
  match shortEscape? character with
  | some escaped => some (some escaped, .plain)
  | none => (longEscape? character).map fun further => (none, .code further 0)

/-- Reads a digit of an escape: the character at the last one. -/
def codeStep (further value : Nat) (character : Char) : Option (Option Char × QuoteMode) := do
  let digit ← Text.hexDigit? character
  let value := value * 16 + digit
  match further with
  | 0 => (characterOf? value).map fun escaped => (some escaped, .plain)
  | further + 1 => some (none, .code further value)

def Quoted.consOption (character? : Option Char) (quoted : Quoted) : Quoted :=
  match character? with
  | some character => quoted.cons character
  | none => quoted

/-- Reads text in double quotes on one line. -/
def readBasic (mode : QuoteMode) : List Char → Quoted
  | [] => none
  | character :: rest =>
    match mode with
    | .escape =>
      match escapeStep character with
      | some (escaped, next) => (readBasic next rest).consOption escaped
      | none => none
    | .code further value =>
      match codeStep further value character with
      | some (escaped, next) => (readBasic next rest).consOption escaped
      | none => none
    | _ =>
      if character = '"' then some ([], rest)
      else if character = '\\' then readBasic .escape rest
      else if isLineCharacter character then (readBasic .plain rest).cons character
      else none

/-- Reads text in single quotes on one line. -/
def readLiteral : List Char → Quoted
  | [] => none
  | character :: rest =>
    if character = '\'' then some ([], rest)
    else if isLineCharacter character then (readLiteral rest).cons character
    else none

/-- Reads a character of text in triple quotes between characters. Backslashes begin escapes if `escapes` says so. -/
def plainStep (quote : Char) (escapes : Bool) (character : Char) : Option (List Char × QuoteMode) :=
  if character = quote then some ([], .quotes 1)
  else if escapes && character = '\\' then some ([], .escape)
  else if character = '\r' then some ([], .carriageReturn true)
  else if character = '\n' || isLineCharacter character then some ([character], .plain)
  else none

/-- Reads a character of text in triple quotes: the content that it ends or is, and the mode after it. -/
def linesStep (quote : Char) (escapes : Bool) : QuoteMode → Char → Option (List Char × QuoteMode)
  | .plain, character => plainStep quote escapes character
  | .escape, character =>
    if isSpace character then some ([], .continuation false)
    else if character = '\n' then some ([], .continuation true)
    else if character = '\r' then some ([], .carriageReturn false)
    else (escapeStep character).map fun (escaped, next) => (escaped.toList, next)
  | .code further value, character =>
    (codeStep further value character).map fun (escaped, next) => (escaped.toList, next)
  | .continuation seen, character =>
    if isSpace character then some ([], .continuation seen)
    else if character = '\n' then some ([], .continuation true)
    else if character = '\r' then some ([], .carriageReturn false)
    else if seen then plainStep quote escapes character
    else none
  | .carriageReturn kept, character =>
    if character = '\n' then
      if kept then some (['\r', '\n'], .plain) else some ([], .continuation true)
    else none
  | .quotes count, character =>
    if character = quote then
      if count < 5 then some ([], .quotes (count + 1)) else none
    else (plainStep quote escapes character).map fun (content, next) =>
      (List.replicate count quote ++ content, next)

/-- Reads text in triple quotes. Three quotes close it, and up to two more before them belong to the content. -/
def readLines (quote : Char) (escapes : Bool) (mode : QuoteMode) : List Char → Quoted
  | [] =>
    match mode with
    | .quotes count => if 3 ≤ count then some (List.replicate (count - 3) quote, []) else none
    | _ => none
  | character :: rest =>
    let closed := match mode with
      | .quotes count => if 3 ≤ count && character != quote then some (count - 3) else none
      | _ => none
    match closed with
    | some count => some (List.replicate count quote, character :: rest)
    | none =>
      match linesStep quote escapes mode character with
      | some (content, next) =>
        (readLines quote escapes next rest).map fun (further, rest) => (content ++ further, rest)
      | none => none

/-- A line end right after the opening quotes does not belong to the content. -/
def dropFirstNewLine (text : List Char) : List Char :=
  (newLine? text).getD text

def readQuoted : List Char → Quoted
  | '"' :: '"' :: '"' :: rest => readLines '"' true .plain (dropFirstNewLine rest)
  | '\'' :: '\'' :: '\'' :: rest => readLines '\'' false .plain (dropFirstNewLine rest)
  | '"' :: rest => readBasic .plain rest
  | '\'' :: rest => readLiteral rest
  | _ => none

end BlockInventory.Toml
