import Offside.Layout.Token
import Offside.Lexeme.Basic

/-!
# Items

What the structure of a program is read from is a stream of items: the lexemes of the code lines, and
between them the tokens that layout added. The model: an item has a symbol, a text and the place where
it begins, with columns counted from one; only for lexemes is it known where they end.
-/

namespace Offside

namespace Item

/-- What an item stands for. -/
inductive Symbol where
  /-- A scope opens. -/
  | indent
  /-- A scope closes. -/
  | dedent
  /-- A code line ends. -/
  | newline
  /-- A lexeme of a code line. -/
  | lexeme (t : Lexeme.Terminal)
  deriving DecidableEq, Repr

/-- The name of a symbol in answers. -/
def Symbol.label : Symbol → String
  | .indent => "_INDENT"
  | .dedent => "_DEDENT"
  | .newline => "_NL"
  | .lexeme t => t.label

end Item

/-- A place in a source. -/
structure Place where
  line : Int
  /-- Counted from one. -/
  column : Int
  deriving DecidableEq, Repr

/-- A lexeme, or a token that layout added. -/
structure Item where
  symbol : Item.Symbol
  text : List Char
  place : Place
  /-- The place after the last character. -/
  stop? : Option Place := none
  deriving DecidableEq, Repr

/-- The item of a token that is no code line. -/
def Item.ofToken (symbol : Symbol) (t : Layout.Token) : Item :=
  { symbol, text := t.payload, place := ⟨t.line, t.column + 1⟩ }

/-- The item of a lexeme of a code line: both columns are counted from where the line's content
begins. -/
def Item.ofLexeme (code : Layout.Token) (l : Lexeme) : Item where
  symbol := .lexeme l.terminal
  text := l.text
  place := ⟨code.line, code.column + l.column⟩
  stop? := some ⟨code.line, code.column + l.endColumn⟩

end Offside
