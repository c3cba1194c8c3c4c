import Offside.Text.DecimalDigit
import Offside.Text.Quoted

/-!
# Numerals

A person writes an integer with room around it, a sign, and single underscores to group its digits,
which may be those of any script. The model: `readInteger?` reads `[blanks] [sign] digits [blanks]`,
where the digits are decimal digits with at most one underscore between two of them, and refuses
anything else; a numeral of more than `longestNumeral` digits, leading zeros counted, is refused too.
A number that would need more digits than that cannot be written either (`isWritable`).

## Limits

The bound on digits is a limit of whatever runs the library. It is in the model wherever a number is worded: in a
diagnostic (`Layout.Diagnostic.isWritable`), in a fault of a program (`ParseError.isWritable`), in a ledger and in
what the command line reports. So is the bound on what entries and columns can be counted by (`isPosition`). Three
limits are outside the model.

* The name that reading under a tab width goes by (`TabWidth.lexerName`) has the number of columns in it, and
  nothing is read under a width that this name cannot tell. Reading is modelled without that name.
* Some hundred suites in suites are more than may be open at once while a tree is gone through. Here trees of
  any depth are gone through.
* There is only so much memory. Where it matters, for the widest margin that can be written out, it is for the
  caller to say (`Layout.writeOut`).
-/

namespace Offside.Text

/-- Code points of the blanks that may stand around a numeral. The separators of information (1C to
1F) are not among them. -/
def blanks : List Nat := [
  0x9, 0xA, 0xB, 0xC, 0xD, 0x20, 0x85, 0xA0, 0x1680, 0x2000, 0x2001, 0x2002, 0x2003, 0x2004, 0x2005,
  0x2006, 0x2007, 0x2008, 0x2009, 0x200A, 0x2028, 0x2029, 0x202F, 0x205F, 0x3000]

/-- The character may stand around a numeral. -/
def isBlank (c : Char) : Bool := blanks.contains c.toNat

/-- The most digits that a numeral may have. -/
def longestNumeral : Nat := 4300

/-- The values of the digits of an unsigned numeral: every underscore has a digit on both sides. -/
def readDigits? : List Char → Option (List Nat)
  | [] => none
  | c :: rest =>
    match digitValue? c, rest with
    | none, _ => none
    | some d, [] => some [d]
    | some d, '_' :: more => (readDigits? more).map (d :: ·)
    | some d, next :: more => (readDigits? (next :: more)).map (d :: ·)

/-- The number that decimal digits stand for, the most significant first. -/
def ofDigits (digits : List Nat) : Nat :=
  digits.foldl (fun n d => 10 * n + d) 0

/-- The number of an unsigned numeral. -/
def readNatural? (text : List Char) : Option Nat := do
  let digits ← readDigits? text
  if digits.length ≤ longestNumeral then some (ofDigits digits) else none

/-- A text without the blanks around it. -/
def trimBlanks (text : List Char) : List Char :=
  ((text.dropWhile isBlank).reverse.dropWhile isBlank).reverse

/-- The integer of a numeral with an optional sign and blanks around it. -/
def readInteger? (text : List Char) : Option Int :=
  match trimBlanks text with
  | '+' :: rest => (readNatural? rest).map fun n => (n : Int)
  | '-' :: rest => (readNatural? rest).map fun n => -(n : Int)
  | rest => (readNatural? rest).map fun n => (n : Int)

/-- A text that is no numeral of an integer above zero. -/
structure InvalidNumeral where
  given : List Char
  deriving DecidableEq, Repr

/-- The wording of a refusal. -/
def InvalidNumeral.message (e : InvalidNumeral) : String :=
  "invalid positive integer: " ++ quote e.given

/-- The number of a numeral that stands for an integer above zero. -/
def readPositive (text : List Char) : Except InvalidNumeral Nat :=
  match readInteger? text with
  | some n => if 0 < n then .ok n.toNat else .error ⟨text⟩
  | none => .error ⟨text⟩

/-! ### Numbers that can be written -/

/-- The least number that needs more digits than a numeral may have. -/
def leastUnwritable : Nat := Nat.pow 10 longestNumeral

/-- A number can be written if it needs no more digits than a numeral may have. -/
def isWritable (n : Int) : Bool := n.natAbs < leastUnwritable

/-- A number that is to be written needs too many digits. -/
structure Unwritable where
  deriving DecidableEq, Repr

/-- The wording of a failure to write a number. -/
def Unwritable.message (_ : Unwritable) : String :=
  "Exceeds the limit (" ++ toString longestNumeral
    ++ " digits) for integer string conversion; use sys.set_int_max_str_digits() to increase the limit"

end Offside.Text
