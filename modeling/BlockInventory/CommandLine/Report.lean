/-!
# Reports of failures

What was attempted, then why it failed: the causes from the nearest to the farthest, numbered if there are several.
The lines of a cause after its first are indented like the first.
-/

set_option autoImplicit false

namespace BlockInventory.Report

/-- The text with an indentation after every line feed. -/
def indentLines (indentation text : List Char) : List Char :=
  text.flatMap fun character =>
    if character = '\n' then '\n' :: indentation else [character]

/-- A cause with its number at the right of five columns. -/
def numberedCause (number : Nat) (cause : String) : List Char :=
  let digits := Nat.toDigits 10 number
  '\n' :: List.replicate (5 - digits.length) ' ' ++ digits ++ ':' :: ' '
    :: indentLines (List.replicate 7 ' ') cause.toList

/-- The causes, with their numbers if there are several. -/
def causeLines : List String → List Char
  | [cause] => '\n' :: List.replicate 4 ' ' ++ indentLines (List.replicate 4 ' ') cause.toList
  | causes => (causes.zipIdx.map fun (cause, number) => numberedCause number cause).flatten

def ofFailure (attempt : String) (causes : List String) : List Char :=
  let why := match causes with
    | [] => []
    | causes => "\n\nCaused by:".toList ++ causeLines causes
  "Error: ".toList ++ attempt.toList ++ why ++ ['\n']

end BlockInventory.Report
