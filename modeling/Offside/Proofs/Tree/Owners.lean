import Mathlib.Data.List.Forall2
import Offside.Proofs.Tree.Visit

/-!
# Owners

The outline of a tree can be told from where its nodes stand, whatever tree it is: statements may stand in
statements and suites in suites, a statement may own several nodes or have words after them, and a leaf need not be
an item of a source, as no tree of a source has it.

## The model

`Tree.nodes` lists the nodes of a tree, each before those in it, together with the rules of the nodes around them.
`Standing.IsHeading` says what the heading of an owner is. The depth that is kept on the way through a tree is the
number of suites around (`Tree.finds_visit`, `Tree.outlined_nodesWithin`); so what is found is the headings of the
owners one by one, or an owner that has no word (`Outlined`).
-/

namespace Offside

open Outline

/-- A node of a tree, as it stands in the tree. -/
structure Standing where
  rule : Rule
  children : List Tree
  /-- The rules of the nodes around it, innermost first. -/
  around : List Rule

namespace Standing

/-- The words among the children. -/
def words (n : Standing) : List Word := n.children.filterMap Tree.word?

/-- The node is a statement and has a node among its children. -/
def Owns (n : Standing) : Prop := n.rule = .statement ∧ ∃ child ∈ n.children, child.isNode = true

instance (n : Standing) : Decidable n.Owns :=
  inferInstanceAs (Decidable (n.rule = .statement ∧ ∃ child ∈ n.children, child.isNode = true))

/-- The heading is called by the words, stands on the line of the first of them, and is as deep as suites are
around. -/
structure IsHeading (n : Standing) (h : Heading) : Prop where
  text : h.text = joinTexts n.words
  line : n.words.head?.map Word.line? = some h.line?
  depth : h.depth = n.around.count .suite

end Standing

mutual

/-- The nodes of a tree within others, each before those in it. -/
def Tree.nodesWithin (around : List Rule) : Tree → List Standing
  | .node rule _ children => ⟨rule, children, around⟩ :: Tree.nodesAllWithin (rule :: around) children
  | .leaf _ | .token .. | .foreign => []

/-- The nodes of trees in a row. -/
def Tree.nodesAllWithin (around : List Rule) : List Tree → List Standing
  | [] => []
  | tree :: rest => tree.nodesWithin around ++ Tree.nodesAllWithin around rest

end

/-- The nodes of a tree, each before those in it. -/
def Tree.nodes (tree : Tree) : List Standing := tree.nodesWithin []

/-- The statements of a tree that own a node, in the order of the nodes. -/
def Tree.owners (tree : Tree) : List Standing := tree.nodes.filter (·.Owns)

/-! ### Headings of owners -/

namespace Standing

variable {n : Standing} {h h' : Heading}

theorem IsHeading.unique (is : n.IsHeading h) (is' : n.IsHeading h') : h = h' := by
  obtain ⟨text, line, depth⟩ := h
  obtain ⟨text', line', depth'⟩ := h'
  obtain rfl : text = text' := is.text.trans is'.text.symm
  obtain rfl : line = line' := Option.some.inj (is.line.symm.trans is'.line)
  obtain rfl : depth = depth' := is.depth.trans is'.depth.symm
  rfl

theorem IsHeading.ne_nil (is : n.IsHeading h) : n.words ≠ [] := by
  intro none
  have line := is.line
  rw [none] at line
  cases line

variable {nodes : List Standing} {headings headings' : List Heading}

/-- Nodes determine their headings. -/
theorem eq_of_forall₂ (each : List.Forall₂ IsHeading nodes headings) (each' : List.Forall₂ IsHeading nodes headings') :
    headings = headings' :=
  List.right_unique_forall₂' (fun _ _ _ is is' => is.unique is') each each'

/-- Nodes that have headings have words. -/
theorem ne_nil_of_forall₂ (each : List.Forall₂ IsHeading nodes headings) : ∀ n ∈ nodes, n.words ≠ [] := by
  induction each with
  | nil => nofun
  | cons is _ ih => exact List.forall_mem_cons.2 ⟨is.ne_nil, ih⟩

end Standing

/-- What is made of nodes: a heading of each owner, or a fault if one of them has no word. -/
inductive Outlined (nodes : List Standing) : Except Fault (List Heading) → Prop
  | told {headings : List Heading} (each : List.Forall₂ Standing.IsHeading (nodes.filter (·.Owns)) headings) :
      Outlined nodes (.ok headings)
  | refused {n : Standing} (e : Fault) (owner : n ∈ nodes.filter (·.Owns)) (nameless : n.words = []) :
      Outlined nodes (.error e)

namespace Outlined

variable {nodes nodes' : List Standing} {found found' : Except Fault (List Heading)}

theorem nothing (h : ∀ n ∈ nodes, ¬ n.Owns) : Outlined nodes (.ok []) := by
  have none : nodes.filter (·.Owns) = [] := List.filter_eq_nil_iff.2 (by simpa using h)
  refine .told ?_
  rw [none]
  exact .nil

theorem append (h : Outlined nodes found) (h' : Outlined nodes' found') :
    Outlined (nodes ++ nodes') (do return (← found) ++ (← found')) := by
  cases h with
  | refused e owner nameless =>
    refine .refused e ?_ nameless
    rw [List.filter_append]
    exact List.mem_append_left _ owner
  | told each =>
    cases h' with
    | refused e owner nameless =>
      refine .refused e ?_ nameless
      rw [List.filter_append]
      exact List.mem_append_right _ owner
    | told each' =>
      refine .told ?_
      rw [List.filter_append]
      exact List.rel_append each each'

/-- A statement is an owner or not, whatever is around it. -/
theorem statement (around : List Rule) (children : List Tree) :
    Outlined [⟨.statement, children, around⟩] (heading (around.count .suite) children) := by
  by_cases owns : Standing.Owns ⟨.statement, children, around⟩
  · have owner : [(⟨.statement, children, around⟩ : Standing)].filter (·.Owns) = [⟨.statement, children, around⟩] :=
      List.filter_cons_of_pos (decide_eq_true owns)
    have node : children.any Tree.isNode = true := List.any_eq_true.2 owns.2
    rw [heading, if_pos node, Heading.ofWords?]
    cases words : children.filterMap Tree.word? with
    | nil =>
      refine .refused (n := ⟨.statement, children, around⟩) .noHeader ?_ words
      rw [owner]
      exact List.mem_singleton_self _
    | cons first rest =>
      refine .told ?_
      rw [owner]
      have is : Standing.IsHeading ⟨.statement, children, around⟩
          ⟨joinTexts (first :: rest), first.line?, around.count .suite⟩ := by
        constructor
        · rw [Standing.words, words]
        · rw [Standing.words, words]
          rfl
        · rfl
      exact .cons is .nil
  · have no_node : ¬ children.any Tree.isNode = true := fun node => owns ⟨rfl, List.any_eq_true.1 node⟩
    rw [heading, if_neg no_node]
    exact nothing (by simpa using owns)

/-- A node of another rule than a statement leaves everything to what is in it. -/
theorem other {rule : Rule} (around : List Rule) (children : List Tree) (h : rule ≠ .statement)
    (inner : Outlined nodes found) : Outlined (⟨rule, children, around⟩ :: nodes) found := by
  have not_owner : ¬ Standing.Owns ⟨rule, children, around⟩ := fun owns => h owns.1
  cases inner with
  | told each =>
    refine .told ?_
    rwa [List.filter_cons_of_neg (by simpa using not_owner)]
  | refused e owner nameless =>
    refine .refused e ?_ nameless
    rwa [List.filter_cons_of_neg (by simpa using not_owner)]

end Outlined

mutual

/-- **A tree has what is to be made of its nodes**, with as many suites around it as are told. -/
theorem Tree.outlined_nodesWithin (around : List Rule) :
    (tree : Tree) → Outlined (tree.nodesWithin around) (tree.outlineWithin (around.count .suite))
  | .node rule _ children => by
    rw [nodesWithin, outlineWithin]
    have inner := Tree.outlined_nodesAllWithin (rule :: around) children
    by_cases statement : rule = .statement
    · rw [if_pos statement]
      subst statement
      rw [List.count_cons_of_ne Rule.suite_ne_statement.symm] at inner
      exact (Outlined.statement around children).append inner
    · rw [if_neg statement]
      by_cases suite : rule = .suite
      · -- one suite more is around what is in it
        rw [if_pos suite]
        subst suite
        rw [List.count_cons_self] at inner
        exact inner.other around children statement
      · rw [if_neg suite]
        rw [List.count_cons_of_ne suite] at inner
        exact inner.other around children statement
  | .leaf _ | .token .. | .foreign => .nothing nofun

/-- Trees in a row have what is to be made of their nodes. -/
theorem Tree.outlined_nodesAllWithin (around : List Rule) :
    (trees : List Tree) → Outlined (nodesAllWithin around trees) (outlineAllWithin (around.count .suite) trees)
  | [] => .nothing nofun
  | tree :: rest => by
    rw [nodesAllWithin, outlineAllWithin]
    exact (tree.outlined_nodesWithin around).append (Tree.outlined_nodesAllWithin around rest)

end

theorem Tree.forall₂_owners_of_outline {tree : Tree} {headings : List Heading} (h : tree.outline = .ok headings) :
    List.Forall₂ Standing.IsHeading tree.owners headings := by
  have outlined : Outlined tree.nodes tree.outline := tree.outline_eq ▸ tree.outlined_nodesWithin []
  rw [h] at outlined
  cases outlined with
  | told each => exact each

/-- **The outline of any tree has one heading for each statement that owns a node**, in the order in which the nodes
stand, each called by the words of its statement and as deep as suites are around this. There is no outline exactly when
such a statement has no word. -/
theorem Tree.outline_eq_iff_owners (tree : Tree) :
    (∀ headings, tree.outline = .ok headings ↔ List.Forall₂ Standing.IsHeading tree.owners headings) ∧
      ∀ e, tree.outline = .error e ↔ (∃ n ∈ tree.owners, n.words = []) ∧ e = .noHeader := by
  have outlined : Outlined tree.nodes tree.outline := tree.outline_eq ▸ tree.outlined_nodesWithin []
  generalize tree.outline = found at outlined
  cases outlined with
  | @told headings each =>
    constructor
    · intro headings'
      rw [Except.ok.injEq]
      constructor
      · rintro rfl
        exact each
      · exact Standing.eq_of_forall₂ each
    · intro e
      refine iff_of_false nofun ?_
      rintro ⟨⟨n, owner, nameless⟩, -⟩
      exact Standing.ne_nil_of_forall₂ each n owner nameless
  | @refused n e owner nameless =>
    constructor
    · intro headings
      refine iff_of_false nofun fun each => ?_
      exact Standing.ne_nil_of_forall₂ each n owner nameless
    · intro e'
      cases e
      cases e'
      exact iff_of_true rfl ⟨⟨n, owner, nameless⟩, rfl⟩

end Offside
