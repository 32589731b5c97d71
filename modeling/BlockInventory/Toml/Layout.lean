/-!
# Layout of TOML

What stands between the parts of a TOML document: spaces and tabs, comments, and line ends. A line ends with a line
feed, which a carriage return may precede. No control character but the tab may stand in a comment.
-/

set_option autoImplicit false

namespace BlockInventory.Toml

def isSpace (character : Char) : Bool :=
  character == ' ' || character == '\t'

/-- A character that may stand in a line: any but the control characters other than the tab. -/
def isLineCharacter (character : Char) : Bool :=
  character == '\t' || (0x20 ≤ character.toNat && character.toNat != 0x7F)

def skipSpace (text : List Char) : List Char :=
  text.dropWhile isSpace

def skipComment : List Char → List Char
  | '#' :: rest => rest.dropWhile isLineCharacter
  | text => text

/-- The lines after the end of this one. -/
def newLine? : List Char → Option (List Char)
  | '\n' :: rest => some rest
  | '\r' :: '\n' :: rest => some rest
  | _ => none

/-- The lines after this one, if it holds nothing more than space and a comment. -/
def lineEnd? (text : List Char) : Option (List Char) :=
  match skipComment (skipSpace text) with
  | [] => some []
  | rest => newLine? rest

/-- The text without the spaces, comments and line ends at its beginning. Inside a comment only a line end matters. -/
def skipGap (inComment : Bool) : List Char → Option (List Char)
  | [] => some []
  | '\r' :: '\n' :: rest => skipGap false rest
  | character :: rest =>
    if character = '\n' then skipGap false rest
    else if inComment then
      if isLineCharacter character then skipGap true rest else none
    else if isSpace character then skipGap false rest
    else if character = '#' then skipGap true rest
    else some (character :: rest)

end BlockInventory.Toml
