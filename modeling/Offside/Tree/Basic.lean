import Offside.Program.Block

/-!
# Trees

A program is shown as a tree whose nodes carry the names of grammar rules. The model: a tree is a node
with a rule and children, a leaf with one item, or something that only trees made by hand hold: a leaf that
is no item of a source, or what is neither a node nor a leaf. `Program.tree` is the tree of a program. In it
only lexemes are leaves, and each node has the place where its first item stands.
-/

namespace Offside

/-- A grammar rule. It is known by its name alone. -/
structure Rule where
  ofName ::
  name : String
  deriving DecidableEq, Repr

namespace Rule

/-- The rule of a whole program. -/
def start : Rule := ofName "start"

/-- The rule of a line with what it owns. -/
def statement : Rule := ofName "statement"

/-- The rule of what a line owns. -/
def suite : Rule := ofName "suite"

end Rule

/-- A tree of grammar rules. -/
inductive Tree where
  | node (rule : Rule) (place? : Option Place) (children : List Tree)
  | leaf (item : Item)
  /-- A leaf made by hand: its symbol may be called anything, and its line need not be known. -/
  | token (symbol : String) (text : List Char) (line? : Option Int)
  /-- Neither a node nor a leaf. -/
  | foreign
  deriving Repr

/-- What a leaf says, and on which line, if that is known. -/
structure Word where
  text : List Char
  line? : Option Int
  deriving DecidableEq, Repr

/-- An item as a word. -/
def Item.word (item : Item) : Word := ⟨item.text, some item.place.line⟩

namespace Tree

/-- The tree is a node. -/
def isNode : Tree → Bool
  | .node .. => true
  | .leaf _ | .token .. | .foreign => false

/-- The item of a leaf. -/
def item? : Tree → Option Item
  | .leaf item => some item
  | .node .. | .token .. | .foreign => none

/-- The word of a leaf. -/
def word? : Tree → Option Word
  | .leaf item => some item.word
  | .token _ text line? => some ⟨text, line?⟩
  | .node .. | .foreign => none

/-- Where the tree stands in its source, if that is known. -/
def place? : Tree → Option Place
  | .node _ place? _ => place?
  | .leaf item => some item.place
  | .token .. | .foreign => none

/-- The node of a statement. -/
def statement (items : List Item) (suites : List Tree) : Tree :=
  .node .statement (items.head?.map Item.place) (items.map .leaf ++ suites)

/-- The node of a suite. -/
def suite (place : Place) (statements : List Tree) : Tree := .node .suite (some place) statements

end Tree

/-- The nodes of a block's statements, in front of others. -/
def Block.treesOnto : Block → List Tree → List Tree
  | .empty, rest => rest
  | .line before items, rest => before.treesOnto (.statement items [] :: rest)
  | .group before items place suite, rest =>
    before.treesOnto (.statement items [.suite place (suite.treesOnto [])] :: rest)

/-- The nodes of a block's statements. -/
def Block.trees (b : Block) : List Tree := b.treesOnto []

/-- The children of a program's node. -/
def Program.trees (p : Program) : List Tree :=
  (p.leading?.map fun (place, suite) => Tree.suite place suite.trees).toList ++ p.body.trees

/-- The tree of a program. It stands where its first child stands. -/
def Program.tree (p : Program) : Tree := .node .start (p.trees.head?.bind Tree.place?) p.trees

/-! ### Laws -/

@[simp] theorem Rule.suite_ne_statement : Rule.suite ≠ .statement := by decide

@[simp] theorem Rule.start_ne_statement : Rule.start ≠ .statement := by decide

@[simp] theorem Rule.start_ne_suite : Rule.start ≠ .suite := by decide

/-- The items of leaves are those that they were made of. -/
theorem Tree.filterMap_item?_map_leaf (items : List Item) : (items.map leaf).filterMap item? = items := by
  induction items with
  | nil => rfl
  | cons item rest ih => simp [item?, ih]

/-- A suite is not among the items of the statement that owns it. -/
theorem Tree.filterMap_item?_children (items : List Item) (place : Place) (statements : List Tree) :
    (items.map leaf ++ [suite place statements]).filterMap item? = items := by
  rw [List.filterMap_append, filterMap_item?_map_leaf]
  exact List.append_nil items

theorem Tree.filterMap_word?_map_leaf (items : List Item) :
    (items.map leaf).filterMap word? = items.map Item.word := by
  induction items with
  | nil => rfl
  | cons item rest ih => simp [word?, ih]

/-- A suite is not among the words of that statement either. -/
theorem Tree.filterMap_word?_children (items : List Item) (place : Place) (statements : List Tree) :
    (items.map leaf ++ [suite place statements]).filterMap word? = items.map Item.word := by
  rw [List.filterMap_append, filterMap_word?_map_leaf]
  exact List.append_nil _

theorem Block.treesOnto_eq (b : Block) (rest : List Tree) : b.treesOnto rest = b.trees ++ rest := by
  unfold trees
  induction b generalizing rest with
  | empty => rfl
  | line before items ih => rw [treesOnto, ih, treesOnto, ih [_]]; simp
  | group before items place suite ih => rw [treesOnto, ih, treesOnto, ih [_]]; simp

@[simp] theorem Block.trees_empty : Block.empty.trees = [] := rfl

@[simp] theorem Block.trees_line (before : Block) (items : List Item) :
    (Block.line before items).trees = before.trees ++ [.statement items []] :=
  before.treesOnto_eq _

@[simp] theorem Block.trees_group (before : Block) (items : List Item) (place : Place)
    (suite : Block) :
    (Block.group before items place suite).trees =
      before.trees ++ [.statement items [.suite place suite.trees]] :=
  before.treesOnto_eq _

@[simp] theorem Block.length_trees (b : Block) : b.trees.length = b.size := by
  induction b with
  | empty => rfl
  | line before items ih => simp [size, ih]
  | group before items place suite ih => simp [size, ih]

@[simp] theorem Program.length_trees (p : Program) : p.trees.length = p.size := by
  cases h : p.leading? with
  | none => simp [trees, size, h]
  | some suite =>
    simp [trees, size, h]
    omega

end Offside
