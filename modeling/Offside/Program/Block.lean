import Offside.Item.Basic

/-!
# Programs

A program is a list of statements, each of them one line of items that may own a suite of statements
below it. A program whose first line is indented begins with a suite that no line owns. The model: a
`Block` is a list of statements written from its end, each added to the statements before it; `items`
lists what a block or program was read from, less where its lines end and its scopes close.
-/

namespace Offside

/-- Statements in order, the last one outermost. -/
inductive Block where
  /-- No statement. -/
  | empty
  /-- A statement without a suite, after others. -/
  | line (before : Block) (items : List Item)
  /-- A statement that owns a suite, which was opened at a place, after others. -/
  | group (before : Block) (items : List Item) (place : Place) (suite : Block)
  deriving DecidableEq, Repr

/-- How many statements there are, those in suites not counted. -/
def Block.size : Block → Nat
  | .empty => 0
  | .line before _ => before.size + 1
  | .group before .. => before.size + 1

/-- The symbols that a block is read from. -/
def Block.symbols : Block → List Item.Symbol
  | .empty => []
  | .line before items => before.symbols ++ items.map Item.symbol ++ [.newline]
  | .group before items _ suite =>
    before.symbols ++ items.map Item.symbol ++ .newline :: .indent :: suite.symbols ++ [.dedent]

/-- The lexemes of a block, in order. -/
def Block.items : Block → List Item
  | .empty => []
  | .line before items => before.items ++ items
  | .group before items _ suite => before.items ++ items ++ suite.items

/-- Statements, possibly after a suite that no line owns. -/
structure Program where
  /-- The suite of a source whose first code line is indented, and the place where it opens. -/
  leading? : Option (Place × Block) := none
  body : Block := .empty
  deriving DecidableEq, Repr

/-- How many statements there are at the top, the suite that no line owns counted as one. -/
def Program.size (p : Program) : Nat := p.leading?.toList.length + p.body.size

/-- The symbols that a program is read from. -/
def Program.symbols (p : Program) : List Item.Symbol :=
  match p.leading? with
  | none => p.body.symbols
  | some (_, suite) => .indent :: suite.symbols ++ .dedent :: p.body.symbols

/-- The lexemes of a program, in order. -/
def Program.items (p : Program) : List Item :=
  match p.leading? with
  | none => p.body.items
  | some (_, suite) => suite.items ++ p.body.items

end Offside
