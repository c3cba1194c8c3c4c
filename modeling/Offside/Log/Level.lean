import Offside.Text.Quoted
import Offside.Text.UpperCase

/-!
# Levels of importance

What is noted in the log has a level, and the log shows what is at or above a threshold. The model: levels
are ordered by rank; a threshold is asked for by a name, which may be written in any case. Two levels have
a second name.
-/

namespace Offside.Log

/-- How much a note matters. -/
inductive Level where
  /-- No level: everything matters. -/
  | unset
  | debug
  | info
  | warning
  | error
  | critical
  deriving DecidableEq, Repr

/-- The name of a level. -/
def Level.name : Level → String
  | .unset => "NOTSET"
  | .debug => "DEBUG"
  | .info => "INFO"
  | .warning => "WARNING"
  | .error => "ERROR"
  | .critical => "CRITICAL"

/-- The place of a level in their order. -/
def Level.rank : Level → Nat
  | .unset => 0
  | .debug => 10
  | .info => 20
  | .warning => 30
  | .error => 40
  | .critical => 50

/-- What the names in upper case stand for. -/
def Level.names : List (String × Level) := [
  ("NOTSET", .unset), ("DEBUG", .debug), ("INFO", .info), ("WARNING", .warning), ("WARN", .warning),
  ("ERROR", .error), ("CRITICAL", .critical), ("FATAL", .critical)]

/-- A name that does not ask for a level. -/
inductive UnknownLevel where
  /-- Nothing has this name. -/
  | noSuchName (upper : List Char)
  /-- The name is that of the layout of a line in the log. -/
  | nameOfLayout
  /-- The name is that of the three styles in which that layout can be written. -/
  | nameOfStyles
  deriving DecidableEq, Repr

/-- The usual layout of a line in the log. -/
def lineLayout : String := "%(levelname)s:%(name)s:%(message)s"

/-- The three styles in which the layout of a line can be written: the sign of each, what makes lines in
it, and the usual layout in it. -/
def lineStyles : List (String × String × String) := [
  ("%", "PercentStyle", lineLayout),
  ("\x7b", "StrFormatStyle", "\x7blevelname\x7d:\x7bname\x7d:\x7bmessage\x7d"),
  ("$", "StringTemplateStyle", "$\x7blevelname\x7d:$\x7bname\x7d:$\x7bmessage\x7d")]

/-- A style as it is shown in a refusal. -/
def displayStyle : String × String × String → String
  | (sign, maker, layout) =>
    "'" ++ sign ++ "': (<class 'logging." ++ maker ++ "'>, '" ++ layout ++ "')"

/-- The wording of a refusal. -/
def UnknownLevel.message : UnknownLevel → String
  | .noSuchName upper => "module 'logging' has no attribute '" ++ String.ofList upper ++ "'"
  | .nameOfLayout => "Unknown level: " ++ Text.quote lineLayout.toList
  | .nameOfStyles =>
    "Level not an integer or a valid string: \x7b"
      ++ ", ".intercalate (lineStyles.map displayStyle) ++ "\x7d"

/-- The level that a name asks for. -/
def Level.ofName (name : List Char) : Except UnknownLevel Level :=
  let upper := Text.upperCase name
  match Level.names.lookup (String.ofList upper) with
  | some level => .ok level
  | none =>
    if upper = "BASIC_FORMAT".toList then .error .nameOfLayout
    else if upper = "_STYLES".toList then .error .nameOfStyles
    else .error (.noSuchName upper)

/-- The threshold that is asked for by name. Whoever asks for quiet gets errors only, whatever the name. -/
def threshold (name : List Char) (quiet : Bool) : Except UnknownLevel Level :=
  if quiet then .ok .error else Level.ofName name

end Offside.Log
