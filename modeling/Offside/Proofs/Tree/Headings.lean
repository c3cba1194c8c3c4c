import Offside.Proofs.Program.Traces
import Offside.Proofs.Tree.Visit

/-!
# Headings

The outline of a program can be read off its items, without the tree that they make.

## The model

`Program.headings` lists the headings of a program by its blocks; the outline of its tree is this list, and
fails for none that is proper (`Program.Proper.outline_eq`). A `Scan` goes through the traces of items one
after the other, and where a scope opens it makes a heading of the line that has ended last. When it has gone
through all that a program keeps of its items, it has found the headings of the program
(`Program.headings_through`).

The suite that no line owns opens before any line has ended; so nothing is made of it, although it counts for
how deep the lines in it stand.
-/

namespace Offside

open Outline

/-- What items give a name to within so many suites, if there is an item. -/
def Heading.ofItems? (depth : Nat) (items : List Item) : Option Heading :=
  Heading.ofWords? depth (items.map Item.word)

/-- The headings of a block within so many suites. -/
def Block.headings (depth : Nat) : Block → List Heading
  | .empty => []
  | .line before _ => before.headings depth
  | .group before items _ suite =>
    before.headings depth ++ ((Heading.ofItems? depth items).toList ++ suite.headings (depth + 1))

/-- The headings of a program. -/
def Program.headings (p : Program) : List Heading :=
  (p.leading?.map fun suite => suite.2.headings 1).getD [] ++ p.body.headings 0

/-! ### The outline of a tree -/

namespace Tree

theorem outlineAllWithin_append {depth : Nat} {first second : List Tree} {found found' : List Heading}
    (h : outlineAllWithin depth first = .ok found) (h' : outlineAllWithin depth second = .ok found') :
    outlineAllWithin depth (first ++ second) = .ok (found ++ found') := by
  induction first generalizing found with
  | nil =>
    obtain rfl := Except.ok.inj h
    exact h'
  | cons tree rest ih =>
    rw [outlineAllWithin] at h
    cases head : tree.outlineWithin depth with
    | error e => simp [head, bind, Except.bind] at h
    | ok own =>
      cases tail : outlineAllWithin depth rest with
      | error e => simp [head, tail, bind, Except.bind] at h
      | ok others =>
        simp only [head, tail, bind, Except.bind, pure, Except.pure, Except.ok.injEq] at h
        rw [List.cons_append, outlineAllWithin, head, ih tail, ← h, List.append_assoc]
        rfl

theorem outlineAllWithin_singleton (depth : Nat) (tree : Tree) :
    outlineAllWithin depth [tree] = tree.outlineWithin depth := by
  simp only [outlineAllWithin]
  cases tree.outlineWithin depth with
  | error e => rfl
  | ok own => simp [bind, Except.bind, pure, Except.pure]

theorem outlineAllWithin_leaves (depth : Nat) (items : List Item) :
    outlineAllWithin depth (items.map leaf) = .ok [] := by
  induction items with
  | nil => rfl
  | cons item rest ih => simp [outlineAllWithin, outlineWithin, ih, bind, Except.bind, pure, Except.pure]

/-- A statement that owns nothing is no heading. -/
theorem outlineWithin_line (depth : Nat) (items : List Item) :
    (statement items []).outlineWithin depth = .ok [] := by
  have no_node : (items.map leaf).any isNode = false := by simp [isNode]
  rw [statement, outlineWithin, if_pos rfl, List.append_nil, outlineAllWithin_leaves, heading, no_node]
  rfl

/-- A statement that owns a suite is a heading. -/
theorem outlineWithin_group {depth : Nat} {items : List Item} {place : Place} {statements : List Tree}
    {inner : List Heading} (some_item : items ≠ [])
    (h : outlineAllWithin (depth + 1) statements = .ok inner) :
    (statement items [suite place statements]).outlineWithin depth =
      .ok ((Heading.ofItems? depth items).toList ++ inner) := by
  have node : (items.map leaf ++ [suite place statements]).any isNode = true := by simp [suite, isNode]
  have owned : outlineAllWithin depth (items.map leaf ++ [suite place statements]) = .ok ([] ++ inner) := by
    refine outlineAllWithin_append (outlineAllWithin_leaves depth items) ?_
    rw [outlineAllWithin_singleton, suite, outlineWithin, if_neg Rule.suite_ne_statement, if_pos rfl, h]
  obtain ⟨first, rest, rfl⟩ := List.exists_cons_of_ne_nil some_item
  rw [statement, outlineWithin, if_pos rfl, owned, heading, node, filterMap_word?_children]
  rfl

end Tree

/-- The trees of a proper block have the headings of the block. -/
theorem Block.Proper.outlineAllWithin_trees {b : Block} (h : b.Proper) (depth : Nat) :
    Tree.outlineAllWithin depth b.trees = .ok (b.headings depth) := by
  induction b generalizing depth with
  | empty => rfl
  | line before items ih =>
    rw [trees_line, headings, ← List.append_nil (before.headings depth)]
    refine Tree.outlineAllWithin_append (ih h.1 depth) ?_
    rw [Tree.outlineAllWithin_singleton]
    exact Tree.outlineWithin_line depth items
  | group before items place suite ih ih_suite =>
    obtain ⟨before_proper, some_item, suite_proper, -⟩ := h
    rw [trees_group, headings]
    refine Tree.outlineAllWithin_append (ih before_proper depth) ?_
    rw [Tree.outlineAllWithin_singleton]
    exact Tree.outlineWithin_group some_item (ih_suite suite_proper (depth + 1))

theorem Program.outline_eq_outlineAllWithin (p : Program) : p.outline = Tree.outlineAllWithin 0 p.trees := by
  rw [outline, Tree.outline_eq, tree, Tree.outlineWithin, if_neg Rule.start_ne_statement, if_neg Rule.start_ne_suite]

/-- **A proper program has an outline**, and it lists the headings of the program. -/
theorem Program.Proper.outline_eq {p : Program} (h : p.Proper) : p.outline = .ok p.headings := by
  obtain ⟨leading?, body⟩ := p
  have body_eq := h.body.outlineAllWithin_trees 0
  cases leading? with
  | none =>
    rw [outline_eq_outlineAllWithin]
    exact body_eq
  | some leading =>
    obtain ⟨place, suite⟩ := leading
    have suite_eq := (h.leading _ rfl).1.outlineAllWithin_trees 1
    rw [outline_eq_outlineAllWithin]
    have first := Tree.outlineAllWithin_singleton 0 (Tree.suite place suite.trees)
    rw [Tree.suite, Tree.outlineWithin, if_neg Rule.suite_ne_statement, if_pos rfl] at first
    exact Tree.outlineAllWithin_append (first.trans suite_eq) body_eq

/-! ### Headings of items -/

/-- How far traces have been gone through. -/
structure Scan where
  /-- The headings found. -/
  headings : List Heading := []
  /-- The suites that are open. -/
  depth : Nat := 0
  /-- The items of the last line that has ended. -/
  header : List Item := []
  /-- The items of the line that has not ended. -/
  items : List Item := []
  deriving DecidableEq, Repr

namespace Scan

/-- Goes on to the next trace. -/
def step (s : Scan) : Item.Trace → Scan
  | .lexeme item => { s with items := s.items ++ [item] }
  | .newline => { s with header := s.items, items := [] }
  | .indent _ =>
    { s with
      headings := s.headings ++ (Heading.ofItems? s.depth s.header).toList
      depth := s.depth + 1 }
  | .dedent => { s with depth := s.depth - 1 }

/-- Goes through all of the traces. -/
def through (s : Scan) (traces : List Item.Trace) : Scan := traces.foldl step s

@[simp] theorem through_nil (s : Scan) : s.through [] = s := rfl

@[simp] theorem through_cons (s : Scan) (t : Item.Trace) (rest : List Item.Trace) :
    s.through (t :: rest) = (s.step t).through rest := rfl

@[simp] theorem through_append (s : Scan) (first second : List Item.Trace) :
    s.through (first ++ second) = (s.through first).through second := List.foldl_append

@[simp] theorem through_lexemes (s : Scan) (items : List Item) :
    s.through (items.map .lexeme) = { s with items := s.items ++ items } := by
  induction items generalizing s with
  | nil => simp
  | cons item rest ih => simp [ih, step]

end Scan

/-- Going through what a block is read from finds the headings of the block, and ends as deep as it began. -/
theorem Block.exists_through_traces (b : Block) {s : Scan} (empty : s.items = []) :
    ∃ header, s.through b.traces = { s with headings := s.headings ++ b.headings s.depth, header } := by
  induction b generalizing s with
  | empty => exact ⟨s.header, by simp [traces, headings]⟩
  | line before items ih =>
    obtain ⟨header, before_eq⟩ := ih empty
    exact ⟨items, by simp [traces, headings, before_eq, Scan.step, empty]⟩
  | group before items place suite ih ih_suite =>
    obtain ⟨header, before_eq⟩ := ih empty
    obtain ⟨header', suite_eq⟩ := ih_suite (s :=
      { headings := s.headings ++ (before.headings s.depth ++ (Heading.ofItems? s.depth items).toList)
        depth := s.depth + 1, header := items, items := [] }) rfl
    refine ⟨header', ?_⟩
    simp [traces, headings, before_eq, Scan.step, empty, suite_eq]

/-- **Going through what a program is read from finds the headings of the program.** -/
theorem Program.headings_through (p : Program) : (Scan.through {} p.traces).headings = p.headings := by
  obtain ⟨leading?, body⟩ := p
  cases leading? with
  | none =>
    obtain ⟨header, body_eq⟩ := body.exists_through_traces (s := {}) rfl
    simp [traces, leadingTraces, headings, body_eq]
  | some leading =>
    obtain ⟨place, suite⟩ := leading
    obtain ⟨header, suite_eq⟩ := suite.exists_through_traces (s := { depth := 1 }) rfl
    obtain ⟨header', body_eq⟩ := body.exists_through_traces
      (s := { headings := suite.headings 1, header }) rfl
    simp [traces, leadingTraces, headings, Scan.step, Heading.ofItems?, Heading.ofWords?, suite_eq, body_eq]

end Offside
