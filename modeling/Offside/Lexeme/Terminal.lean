import Offside.Text.DecimalDigit

/-!
# Terminals

The words and signs of a code line are of finitely many sorts. The model: a terminal is a keyword, a
sign (`Mark`), one of the three open classes (names, numbers, strings), or one of the two that separate
lexemes without being any (comments and blank space). Keywords and signs are determined by their
spelling; the keywords have the shape of names.
-/

namespace Offside.Lexeme

/-- The words that are no names. -/
inductive Keyword where
  | fn | main | render | asm | struct | ifWord | elseWord | forWord | inWord | range | to | filter
  | pass | letWord | returnWord | print | endWord
  deriving DecidableEq, Repr

/-- How a keyword is written. -/
def Keyword.spelling : Keyword → String
  | .fn => "fn"
  | .main => "Main"
  | .render => "render"
  | .asm => "asm"
  | .struct => "struct"
  | .ifWord => "if"
  | .elseWord => "else"
  | .forWord => "for"
  | .inWord => "in"
  | .range => "range"
  | .to => "to"
  | .filter => "filter"
  | .pass => "pass"
  | .letWord => "let"
  | .returnWord => "return"
  | .print => "print"
  | .endWord => "end"

/-- Every keyword. -/
def Keyword.all : List Keyword := [
  .fn, .main, .render, .asm, .struct, .ifWord, .elseWord, .forWord, .inWord, .range, .to, .filter,
  .pass, .letWord, .returnWord, .print, .endWord]

/-- The keyword that a word is, if it is one. -/
def Keyword.ofWord? (word : List Char) : Option Keyword :=
  Keyword.all.find? fun k => k.spelling.toList == word

/-- The signs. -/
inductive Mark where
  | arrow | equal | notEqual | lessEqual | greaterEqual | less | greater | assign
  | plus | minus | star | slash | percent
  | leftParen | rightParen | leftBracket | rightBracket | leftBrace | rightBrace
  | comma | colon | semicolon | dot
  deriving DecidableEq, Repr

/-- How a sign is written. -/
def Mark.spelling : Mark → String
  | .arrow => "->"
  | .equal => "=="
  | .notEqual => "!="
  | .lessEqual => "<="
  | .greaterEqual => ">="
  | .less => "<"
  | .greater => ">"
  | .assign => "="
  | .plus => "+"
  | .minus => "-"
  | .star => "*"
  | .slash => "/"
  | .percent => "%"
  | .leftParen => "("
  | .rightParen => ")"
  | .leftBracket => "["
  | .rightBracket => "]"
  | .leftBrace => "\x7b"
  | .rightBrace => "\x7d"
  | .comma => ","
  | .colon => ":"
  | .semicolon => ";"
  | .dot => "."

/-- The name of a sign in answers. -/
def Mark.name : Mark → String
  | .arrow => "ARROW"
  | .equal => "EQ"
  | .notEqual => "NE"
  | .lessEqual => "LE"
  | .greaterEqual => "GE"
  | .less => "LT"
  | .greater => "GT"
  | .assign => "ASSIGN"
  | .plus => "PLUS"
  | .minus => "MINUS"
  | .star => "STAR"
  | .slash => "SLASH"
  | .percent => "PERCENT"
  | .leftParen => "LPAR"
  | .rightParen => "RPAR"
  | .leftBracket => "LSQB"
  | .rightBracket => "RSQB"
  | .leftBrace => "LBRACE"
  | .rightBrace => "RBRACE"
  | .comma => "COMMA"
  | .colon => "COLON"
  | .semicolon => "SEMICOLON"
  | .dot => "DOT"

/-- Every sign, the longer ones first. -/
def Mark.all : List Mark := [
  .arrow, .equal, .notEqual, .lessEqual, .greaterEqual,
  .less, .greater, .assign, .plus, .minus, .star, .slash, .percent,
  .leftParen, .rightParen, .leftBracket, .rightBracket, .leftBrace, .rightBrace,
  .comma, .colon, .semicolon, .dot]

/-- The longest sign that a text begins with. -/
def Mark.leading? (text : List Char) : Option Mark :=
  Mark.all.find? fun m => m.spelling.toList.isPrefixOf text

/-- A sort of lexeme, or of what separates lexemes. -/
inductive Terminal where
  | keyword (k : Keyword)
  | name
  | number
  | string
  | mark (m : Mark)
  | comment
  | space
  deriving DecidableEq, Repr

/-- The name of a terminal in answers. -/
def Terminal.label : Terminal → String
  | .keyword k => k.spelling.toUpper
  | .name => "NAME"
  | .number => "NUMBER"
  | .string => "STRING"
  | .mark m => m.name
  | .comment => "COMMENT"
  | .space => "WS"

/-- What separates lexemes is dropped. -/
def Terminal.isIgnored : Terminal → Bool
  | .comment | .space => true
  | _ => false

/-! ### Character classes -/

/-- A word begins with an ASCII letter or an underscore. -/
def isWordStart (c : Char) : Bool := c.isAlpha || c == '_'

/-- A word goes on with ASCII letters, ASCII digits and underscores. -/
def isWordChar (c : Char) : Bool := c.isAlphanum || c == '_'

/-- Space, tab, form feed and carriage return separate lexemes. -/
def isSpace (c : Char) : Bool := c == ' ' || c == '\t' || c == '\x0c' || c == '\r'

/-- A string stands between two of the same quotes. -/
def isQuote (c : Char) : Bool := c == '"' || c == '\''

/-! ### Laws -/

theorem Keyword.mem_all (k : Keyword) : k ∈ Keyword.all := by cases k <;> decide

theorem Mark.mem_all (m : Mark) : m ∈ Mark.all := by cases m <;> decide

theorem Keyword.spelling_of_ofWord? {word : List Char} {k : Keyword}
    (h : Keyword.ofWord? word = some k) : k.spelling.toList = word := by
  simpa using List.find?_some h

theorem Mark.isPrefix_of_leading? {text : List Char} {m : Mark} (h : Mark.leading? text = some m) :
    m.spelling.toList <+: text := by
  simpa using List.find?_some h

theorem Mark.spelling_ne_nil (m : Mark) : m.spelling.toList ≠ [] := by cases m <;> decide

end Offside.Lexeme
