import Offside.Item.Basic
import Offside.Text.Numeral

/-!
# Parse errors

A source that cannot be read as a program has a first place where this shows. The model: a parse error
is a cause with the line it was found on and, within that line, a column counted from zero; where the
place is not known in full, only the known part is told.
-/

namespace Offside

namespace ParseError

/-- What is wrong. -/
inductive Cause where
  /-- No lexeme begins with this character. -/
  | unexpectedCharacter (c : Char)
  /-- The item does not continue any program. -/
  | unexpectedItem (item : Item)
  /-- A program does not end here. -/
  | unexpectedEnd
  /-- A cause in the words of whoever reports it. -/
  | stated (text : List Char)
  deriving DecidableEq, Repr

/-- The wording of a cause. -/
def Cause.message : Cause → String
  | .unexpectedCharacter c => "Unexpected character " ++ Text.quote [c]
  | .unexpectedItem item =>
    "Unexpected token Token(" ++ Text.quote item.symbol.label.toList ++ ", " ++ Text.quote item.text
      ++ ") at line " ++ toString item.place.line ++ ", column " ++ toString item.place.column ++ "."
  | .unexpectedEnd => "Unexpected end of input"
  | .stated text => String.ofList text

end ParseError

/-- The first fault that keeps a source from being a program. -/
structure ParseError where
  cause : ParseError.Cause
  line? : Option Int := none
  column? : Option Int := none
  deriving DecidableEq, Repr

namespace ParseError

/-- What is wrong, without the place. -/
def detail (e : ParseError) : String := e.cause.message

/-- What is wrong, and where as far as it is known. A column alone is not told. -/
def message (e : ParseError) : String :=
  match e.line?, e.column? with
  | some line, some column =>
    "Parse error at line " ++ toString line ++ ":" ++ toString column ++ " - " ++ e.detail
  | some line, none => "Parse error at line " ++ toString line ++ " - " ++ e.detail
  | none, _ => e.detail

/-- The numbers in the wording of a cause can be written. -/
def Cause.isWritable : Cause → Bool
  | .unexpectedItem item => Text.isWritable item.place.line && Text.isWritable item.place.column
  | _ => true

/-- The numbers in the wording of an error can be written. -/
def isWritable (e : ParseError) : Bool :=
  e.cause.isWritable && e.line?.all Text.isWritable && e.column?.all Text.isWritable

/-- The error, if it can be worded. -/
def worded (e : ParseError) : Except Text.Unwritable ParseError :=
  if e.isWritable then .ok e else .error {}

/-- The error for an item out of place. A line or column that does not count from one is not told. -/
def ofItem (item : Item) : ParseError where
  cause := .unexpectedItem item
  line? := if 0 < item.place.line then some item.place.line else none
  column? := if 0 < item.place.line ∧ 0 < item.place.column then some (item.place.column - 1) else none

/-- The error for a character of a code line that no lexeme begins with. -/
def ofStop (code : Layout.Token) (stop : Lexeme.Stop) : ParseError where
  cause := .unexpectedCharacter stop.char
  line? := some code.line
  column? := some (code.column + stop.column - 1)

end ParseError

end Offside
