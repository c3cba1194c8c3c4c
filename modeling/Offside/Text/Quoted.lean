import Offside.Text.Printable

/-!
# Quoted text

A text named in a message stands between quotes, so that it fills one line and shows every
character. The model: the double quote is the mark exactly when the text holds a single quote and no
double quote; the mark itself and the backslash are escaped by a backslash; line feed, carriage
return and tab have a letter of their own; any other character that does not show is written by its
code point, in two, four or eight hexadecimal digits.
-/

namespace Offside.Text

/-- The mark that a text is quoted in. -/
def quoteMark (text : List Char) : Char :=
  if '\'' ∈ text ∧ '"' ∉ text then '"' else '\''

/-- A number in hexadecimal, padded by zeros to a least number of digits. -/
def hexadecimal (digits n : Nat) : List Char :=
  (Nat.toDigits 16 n).leftpad digits '0'

/-- A character by its code point, in the shortest of the three forms that holds it. -/
def codePointEscape (c : Char) : List Char :=
  if c.toNat < 0x100 then '\\' :: 'x' :: hexadecimal 2 c.toNat
  else if c.toNat < 0x10000 then '\\' :: 'u' :: hexadecimal 4 c.toNat
  else '\\' :: 'U' :: hexadecimal 8 c.toNat

/-- A character as it stands between two marks. -/
def quoteChar (mark c : Char) : List Char :=
  if c = mark ∨ c = '\\' then ['\\', c]
  else if c = '\n' then ['\\', 'n']
  else if c = '\r' then ['\\', 'r']
  else if c = '\t' then ['\\', 't']
  else if isPrintable c then [c]
  else codePointEscape c

/-- A text between quotes. -/
def quote (text : List Char) : String :=
  let mark := quoteMark text
  String.ofList (mark :: text.flatMap (quoteChar mark) ++ [mark])

end Offside.Text
