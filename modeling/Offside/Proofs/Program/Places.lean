import Offside.Program.Reader
import Offside.Tree.Basic

/-!
# Programs and places

Where items stand decides nothing about the program that is read from them. Moving all items moves the
program and changes nothing else about it (`Reader.feedAll_mapPlaces`), so items that say the same make
programs whose trees have the same `Tree.shape`, wherever they stand (`Reader.shape_tree_eq_of_feedAll`).

## The model

`mapPlaces f` moves every place of an item, a block, a reader or a program by `f`; a constant `f` forgets
the places. A `Tree.Shape` is what is left of a tree without any places: its rules, how they are nested,
and the symbols and texts of its leaves.
-/

namespace Offside

/-! ### Moving items and what is read from them -/

/-- The item moved to another place. -/
def Item.mapPlaces (f : Place → Place) (item : Item) : Item :=
  { item with place := f item.place, stop? := item.stop?.map f }

/-- The block with all its items moved. -/
def Block.mapPlaces (f : Place → Place) : Block → Block
  | .empty => .empty
  | .line before items => .line (before.mapPlaces f) (items.map (Item.mapPlaces f))
  | .group before items place suite =>
    .group (before.mapPlaces f) (items.map (Item.mapPlaces f)) (f place) (suite.mapPlaces f)

def Frame.mapPlaces (f : Place → Place) : Frame → Frame
  | .leading place => .leading (f place)
  | .suite before header place =>
    .suite (before.mapPlaces f) (header.map (Item.mapPlaces f)) (f place)

/-- The suite that no line owns, moved. -/
def mapLeading (f : Place → Place) (leading? : Option (Place × Block)) : Option (Place × Block) :=
  leading?.map fun (place, suite) => (f place, suite.mapPlaces f)

/-- What has been read so far, moved. -/
def Reader.mapPlaces (f : Place → Place) (r : Reader) : Reader where
  frames := r.frames.map (Frame.mapPlaces f)
  leading? := mapLeading f r.leading?
  block := r.block.mapPlaces f
  items := r.items.map (Item.mapPlaces f)

/-- The program with all its items moved. -/
def Program.mapPlaces (f : Place → Place) (p : Program) : Program :=
  ⟨mapLeading f p.leading?, p.body.mapPlaces f⟩

/-! ### Reading -/

namespace Reader

variable (f : Place → Place)

theorem openSuite?_mapPlaces (r : Reader) (place : Place) :
    (r.mapPlaces f).openSuite? (f place) = (r.openSuite? place).map (mapPlaces f) := by
  obtain ⟨frames, leading?, block, items⟩ := r
  cases block with
  | empty =>
    cases frames with
    | nil => cases leading? <;> rfl
    | cons frame outer => rfl
  | line before header => rfl
  | group before header place suite => rfl

theorem closeSuite?_mapPlaces (r : Reader) :
    (r.mapPlaces f).closeSuite? = r.closeSuite?.map (mapPlaces f) := by
  obtain ⟨frames, leading?, block, items⟩ := r
  cases frames with
  | nil => cases block <;> rfl
  | cons frame outer => cases frame <;> cases block <;> rfl

theorem feed?_mapPlaces (r : Reader) (item : Item) :
    (r.mapPlaces f).feed? (item.mapPlaces f) = (r.feed? item).map (mapPlaces f) := by
  have empty : (r.mapPlaces f).items.isEmpty = r.items.isEmpty := List.isEmpty_map
  obtain ⟨symbol, text, place, stop?⟩ := item
  cases symbol with
  | lexeme t => simp [feed?, mapPlaces, Item.mapPlaces]
  | newline =>
    simp only [feed?, Item.mapPlaces, empty]
    split <;> rfl
  | indent =>
    simp only [feed?, Item.mapPlaces, empty, openSuite?_mapPlaces]
    split <;> rfl
  | dedent =>
    simp only [feed?, Item.mapPlaces, empty, closeSuite?_mapPlaces]
    split <;> rfl

/-- **Moved items make what they make where they stand, moved.** -/
theorem feedAll_mapPlaces {r r' : Reader} {items : List Item} (h : r.feedAll items = .ok r') :
    (r.mapPlaces f).feedAll (items.map (Item.mapPlaces f)) = .ok (r'.mapPlaces f) := by
  induction items generalizing r with
  | nil =>
    obtain rfl := Except.ok.inj h
    rfl
  | cons item rest ih =>
    rw [feedAll] at h
    rw [List.map_cons, feedAll, feed?_mapPlaces]
    cases next : r.feed? item with
    | none => simp [next] at h
    | some r₁ =>
      rw [next] at h
      exact ih h

end Reader

/-! ### Shapes of trees -/

/-- A tree without places. -/
inductive Tree.Shape where
  | node (rule : Rule) (children : List Tree.Shape)
  | leaf (symbol : Item.Symbol) (text : List Char)
  | token (symbol : String) (text : List Char)
  /-- Neither a node nor a leaf. -/
  | foreign
  deriving Repr

mutual

/-- What a tree is without its places. -/
def Tree.shape : Tree → Tree.Shape
  | .node rule _ children => .node rule (Tree.shapes children)
  | .leaf item => .leaf item.symbol item.text
  | .token symbol text _ => .token symbol text
  | .foreign => .foreign

/-- What trees are without their places. -/
def Tree.shapes : List Tree → List Tree.Shape
  | [] => []
  | tree :: rest => tree.shape :: Tree.shapes rest

end

theorem Tree.shapes_eq_map (trees : List Tree) : shapes trees = trees.map shape := by
  induction trees with
  | nil => rfl
  | cons tree rest ih => rw [shapes, ih, List.map_cons]

@[simp] theorem Tree.shape_node (rule : Rule) (place? : Option Place) (children : List Tree) :
    (node rule place? children).shape = .node rule (children.map shape) := by
  rw [shape, shapes_eq_map]

theorem Tree.shape_statement_mapPlaces (f : Place → Place) (items : List Item) {suites suites' : List Tree}
    (same : suites'.map shape = suites.map shape) :
    (statement (items.map (Item.mapPlaces f)) suites').shape = (statement items suites).shape := by
  simp [statement, same, Function.comp_def, shape, Item.mapPlaces]

theorem Block.map_shape_trees_mapPlaces (f : Place → Place) (b : Block) :
    (b.mapPlaces f).trees.map Tree.shape = b.trees.map Tree.shape := by
  induction b with
  | empty => rfl
  | line before items ih =>
    rw [mapPlaces, trees_line, trees_line, List.map_append, List.map_append, ih, List.map_singleton,
      List.map_singleton, Tree.shape_statement_mapPlaces f items rfl]
  | group before items place suite ih ih_suite =>
    have suites : [Tree.suite (f place) (suite.mapPlaces f).trees].map Tree.shape =
        [Tree.suite place suite.trees].map Tree.shape := by
      simp [Tree.suite, ih_suite]
    rw [mapPlaces, trees_group, trees_group, List.map_append, List.map_append, ih, List.map_singleton,
      List.map_singleton, Tree.shape_statement_mapPlaces f items suites]

theorem Program.shape_tree_mapPlaces (f : Place → Place) (p : Program) :
    (p.mapPlaces f).tree.shape = p.tree.shape := by
  obtain ⟨leading?, body⟩ := p
  cases leading? with
  | none => simp [tree, trees, mapPlaces, mapLeading, body.map_shape_trees_mapPlaces f]
  | some leading =>
    obtain ⟨place, suite⟩ := leading
    simp [tree, trees, mapPlaces, mapLeading, Tree.suite, body.map_shape_trees_mapPlaces f,
      suite.map_shape_trees_mapPlaces f]

/-- **What is the same but for its places makes programs of the same shape.** -/
theorem Reader.shape_tree_eq_of_feedAll (f : Place → Place) {r₁ r₂ : Reader} {items₁ items₂ : List Item}
    (h₁ : feedAll {} items₁ = .ok r₁) (h₂ : feedAll {} items₂ = .ok r₂)
    (same : items₁.map (Item.mapPlaces f) = items₂.map (Item.mapPlaces f)) :
    (Program.mk r₁.leading? r₁.block).tree.shape = (Program.mk r₂.leading? r₂.block).tree.shape := by
  have moved₁ := feedAll_mapPlaces f h₁
  have moved₂ := feedAll_mapPlaces f h₂
  rw [same] at moved₁
  have reader : r₁.mapPlaces f = r₂.mapPlaces f := Except.ok.inj (moved₁.symm.trans moved₂)
  have program : (Program.mk r₁.leading? r₁.block).mapPlaces f =
      (Program.mk r₂.leading? r₂.block).mapPlaces f :=
    congrArg (fun r : Reader => Program.mk r.leading? r.block) reader
  rw [← Program.shape_tree_mapPlaces f, program, Program.shape_tree_mapPlaces]

end Offside
