import Offside.Tree.Basic

/-!
# Outlines

The outline of a tree lists the statements that own something, with how deep they stand. The model: one
goes through a tree in order with notes of the headings found so far and of how deep one is (`Tree.visit`).
A statement with a node among its children is noted, made of its words, before one goes through what it
owns; a suite is entered before what is in it and left after; every other rule is passed through, and so is
what is no node. A statement that owns a node but has no word has nothing to be called by, and one goes no
further: the notes stay as they are there, as deep as that was.
-/

namespace Offside

/-- A statement that owns a suite. -/
structure Heading where
  /-- The texts of its words, with a space between each two. -/
  text : List Char
  /-- The line of its first word, if that is known. -/
  line? : Option Int
  /-- The suites around it. -/
  depth : Nat
  deriving DecidableEq, Repr

namespace Outline

/-- Why a tree has no outline. -/
inductive Fault where
  /-- A statement owns a node but has no word. -/
  | noHeader
  deriving DecidableEq, Repr

/-- The wording of a fault. -/
def Fault.message : Fault → String
  | .noHeader => "list index out of range"

/-- The texts of words with a space between each two. -/
def joinTexts (words : List Word) : List Char := [' '].intercalate (words.map Word.text)

end Outline

/-- What words give a name to within so many suites, if there is a word. -/
def Heading.ofWords? (depth : Nat) (words : List Word) : Option Heading :=
  words.head?.map fun first => ⟨Outline.joinTexts words, first.line?, depth⟩

namespace Outline

/-- What is noted on the way through a tree. -/
structure Notes where
  /-- The headings found. -/
  headings : List Heading := []
  /-- The suites that have been entered and not left. -/
  depth : Nat := 0
  deriving DecidableEq, Repr

/-- A stretch of the way. The notes are kept where it ends early. -/
abbrev Walk := EStateM Fault Notes

/-- Notes the statement that has these children, if one of them is a node. -/
def note (children : List Tree) : Walk Unit := do
  if children.any Tree.isNode then
    match Heading.ofWords? (← get).depth (children.filterMap Tree.word?) with
    | some heading => modify fun s => { s with headings := s.headings ++ [heading] }
    | none => throw .noHeader

/-- Enters a suite. -/
def enter : Walk Unit := modify fun s => { s with depth := s.depth + 1 }

/-- Leaves a suite. -/
def leave : Walk Unit := modify fun s => { s with depth := s.depth - 1 }

end Outline

open Outline in
mutual

/-- Goes through a tree. -/
def Tree.visit : Tree → Walk Unit
  | .node rule _ children =>
    if rule = .statement then do
      note children
      Tree.visitAll children
    else if rule = .suite then do
      enter
      Tree.visitAll children
      leave
    else Tree.visitAll children
  | .leaf _ | .token .. | .foreign => return

/-- Goes through trees in order. -/
def Tree.visitAll : List Tree → Walk Unit
  | [] => return
  | tree :: rest => do
    tree.visit
    Tree.visitAll rest

end

/-- The headings of a tree. -/
def Tree.outline (tree : Tree) : Except Outline.Fault (List Heading) :=
  match tree.visit.run {} with
  | .ok () s => .ok s.headings
  | .error e _ => .error e

/-- The headings of a program. -/
def Program.outline (p : Program) : Except Outline.Fault (List Heading) := p.tree.outline

end Offside
