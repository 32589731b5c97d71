import BlockInventory.Json.Token
import BlockInventory.Json.Value

/-!
# Reading JSON

The value that a sequence of tokens spells. A machine reads one token at a time and keeps the arrays and objects
that are still open, the innermost first, so there is no limit on how deep values may lie in each other.
-/

set_option autoImplicit false

namespace BlockInventory.Json

/-- A array or object that have begun, with what was read of them, the latest first. -/
inductive Frame where
  | array (earlier : List Value)
  | object (earlier : List (Option String × Value)) (key : Option String)

/-- What may come next. -/
inductive Expectation where
  | valueDue (opened : List Frame)
  /-- The first item of an array, or its end. -/
  | firstItem (opened : List Frame)
  /-- The first key of an object, or its end. -/
  | firstKey (opened : List Frame)
  | keyDue (earlier : List (Option String × Value)) (opened : List Frame)
  | colonDue (earlier : List (Option String × Value)) (key : Option String) (opened : List Frame)
  /-- A value has ended: a comma or the end of what contains it. -/
  | ended (value : Value) (opened : List Frame)

namespace Expectation

/-- Reads a token where a value has to begin. -/
def begin (opened : List Frame) : Token → Option Expectation
  | .openArray => some (.firstItem opened)
  | .openObject => some (.firstKey opened)
  | .null => some (.ended .null opened)
  | .boolean value => some (.ended (.boolean value) opened)
  | .number spelling => some (.ended (.number spelling) opened)
  | .string text => some (.ended (.string text) opened)
  | _ => none

def step : Expectation → Token → Option Expectation
  | .valueDue opened, token => begin opened token
  | .firstItem opened, .closeArray => some (.ended (.array []) opened)
  | .firstItem opened, token => begin (.array [] :: opened) token
  | .firstKey opened, .closeObject => some (.ended (.object []) opened)
  | .firstKey opened, .string key => some (.colonDue [] key opened)
  | .keyDue earlier opened, .string key => some (.colonDue earlier key opened)
  | .colonDue earlier key opened, .colon => some (.valueDue (.object earlier key :: opened))
  | .ended value (.array earlier :: opened), .comma => some (.valueDue (.array (value :: earlier) :: opened))
  | .ended value (.array earlier :: opened), .closeArray =>
    some (.ended (.array (value :: earlier).reverse) opened)
  | .ended value (.object earlier key :: opened), .comma => some (.keyDue ((key, value) :: earlier) opened)
  | .ended value (.object earlier key :: opened), .closeObject =>
    some (.ended (.object ((key, value) :: earlier).reverse) opened)
  | _, _ => none

/-- The value that has been read when no array or object are open. -/
def finish : Expectation → Option Value
  | .ended value [] => some value
  | _ => none

end Expectation

namespace Value

def ofTokens? (tokens : List Token) : Option Value :=
  (tokens.foldlM Expectation.step (.valueDue [])).bind Expectation.finish

def ofText? (text : List Char) : Option Value :=
  (Token.ofText? text).bind ofTokens?

end Value

end BlockInventory.Json
