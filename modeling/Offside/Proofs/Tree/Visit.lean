import Offside.Proofs.Sequence
import Offside.Tree.Outline

/-!
# Visits

Whoever goes through a tree keeps one depth for all of it, and changes it on entering a suite and on leaving it. So
what is noted in a suite depends on what was done before; but it comes to the same as if each tree were looked at by
itself, being told how many suites are around it.

## The model

`Tree.outlineWithin` looks at trees in this way: the depth is an argument, and the headings of a tree are those of its
parts in a row. Going through a tree finds the same from any notes (`Tree.finds_visit`): it adds the headings to those
that were noted and is as deep at the end as it was at the beginning, or it stops where there is no outline
(`Outline.Finds`). There the depth is left as it is, so one must not go on with these notes.
-/

namespace Offside

open Outline

namespace Outline

variable {s : Notes} {first : Walk Unit}

/-- The heading of a statement within so many suites, if it owns a node. -/
def heading (depth : Nat) (children : List Tree) : Except Fault (List Heading) :=
  if children.any Tree.isNode then
    match Heading.ofWords? depth (children.filterMap Tree.word?) with
    | some heading => .ok [heading]
    | none => .error .noHeader
  else .ok []

/-- A stretch that starts with some notes finds the headings: it adds them to those noted, and is as deep as before. If
there are none to be found it stops, not less deep than before, and nothing that was noted is lost. -/
inductive Finds (s : Notes) : Except Fault (List Heading) → EStateM.Result Fault Notes Unit → Prop
  | ok (found : List Heading) : Finds s (.ok found) (.ok () { s with headings := s.headings ++ found })
  | error {left : Notes} (e : Fault) (deep : s.depth ≤ left.depth) (kept : s.headings <+: left.headings) :
      Finds s (.error e) (.error e left)

theorem Finds.nothing (s : Notes) : Finds s (.ok []) (.ok () s) := by
  have unchanged : Finds s (.ok []) (.ok () { s with headings := s.headings ++ [] }) := .ok []
  rwa [List.append_nil] at unchanged

/-- Of two stretches, the second starts with what the first leaves. -/
theorem Finds.append {found found' : Except Fault (List Heading)} {second : Walk Unit}
    (h : Finds s found (first s)) (h' : ∀ t : Notes, t.depth = s.depth → Finds t found' (second t)) :
    Finds s (do return (← found) ++ (← found')) ((do first; second) s) := by
  generalize ended : first s = result at h
  cases h with
  | error e deep kept =>
    rw [bind_of_error ended]
    exact .error e deep kept
  | ok own =>
    rw [bind_of_ok ended]
    specialize h' { s with headings := s.headings ++ own } rfl
    generalize second { s with headings := s.headings ++ own } = result' at h'
    cases h' with
    | ok others =>
      have both : s.headings ++ own ++ others = s.headings ++ (own ++ others) := List.append_assoc ..
      rw [both]
      exact .ok (own ++ others)
    | error e deep kept => exact .error e deep ((List.prefix_append _ _).trans kept)

/-- A statement is noted as deep as the notes are. -/
theorem finds_note (s : Notes) (children : List Tree) : Finds s (heading s.depth children) (note children s) := by
  unfold heading note
  by_cases node : children.any Tree.isNode = true
  · rw [if_pos node, if_pos node]
    change Finds s _ ((match Heading.ofWords? s.depth (children.filterMap Tree.word?) with
      | some heading => modify fun s => { s with headings := s.headings ++ [heading] }
      | none => throw .noHeader : Walk Unit) s)
    cases Heading.ofWords? s.depth (children.filterMap Tree.word?) with
    | some heading => exact .ok [heading]
    | none => exact .error .noHeader (Nat.le_refl _) (List.prefix_refl _)
  · rw [if_neg node, if_neg node]
    exact .nothing s

/-- What is found in a suite is found one deeper, and then the suite is left. -/
theorem Finds.suite {inner : Walk Unit} {found : Except Fault (List Heading)}
    (h : Finds { s with depth := s.depth + 1 } found (inner { s with depth := s.depth + 1 })) :
    Finds s found ((do enter; inner; leave) s) := by
  have entered : enter s = .ok () { s with depth := s.depth + 1 } := rfl
  rw [bind_of_ok entered]
  generalize ended : inner { s with depth := s.depth + 1 } = result at h
  cases h with
  | ok found =>
    rw [bind_of_ok ended]
    exact .ok found
  | error e deep kept =>
    rw [bind_of_error ended]
    exact .error e (Nat.le_of_succ_le deep) kept

end Outline

mutual

/-- The headings of a tree within so many suites. -/
def Tree.outlineWithin (depth : Nat) : Tree → Except Fault (List Heading)
  | .node rule _ children =>
    if rule = .statement then do
      return (← heading depth children) ++ (← Tree.outlineAllWithin depth children)
    else if rule = .suite then Tree.outlineAllWithin (depth + 1) children
    else Tree.outlineAllWithin depth children
  | .leaf _ | .token .. | .foreign => .ok []

/-- The headings of trees in order, within so many suites. -/
def Tree.outlineAllWithin (depth : Nat) : List Tree → Except Fault (List Heading)
  | [] => .ok []
  | tree :: rest => do return (← tree.outlineWithin depth) ++ (← Tree.outlineAllWithin depth rest)

end

mutual

/-- **Going through a tree finds the headings that it has within as many suites as were entered before.** -/
theorem Tree.finds_visit (s : Notes) : (tree : Tree) → Finds s (tree.outlineWithin s.depth) (tree.visit s)
  | .node rule place? children => by
    rw [Tree.outlineWithin, Tree.visit]
    by_cases statement : rule = .statement
    · rw [if_pos statement, if_pos statement]
      refine (finds_note s children).append fun t depth_eq => ?_
      rw [← depth_eq]
      exact Tree.finds_visitAll t children
    · rw [if_neg statement, if_neg statement]
      by_cases suite : rule = .suite
      · rw [if_pos suite, if_pos suite]
        exact (Tree.finds_visitAll { s with depth := s.depth + 1 } children).suite
      · rw [if_neg suite, if_neg suite]
        exact Tree.finds_visitAll s children
  | .leaf _ => .nothing s
  | .token .. => .nothing s
  | .foreign => .nothing s

/-- Going through trees in order finds their headings. -/
theorem Tree.finds_visitAll (s : Notes) :
    (trees : List Tree) → Finds s (Tree.outlineAllWithin s.depth trees) (Tree.visitAll trees s)
  | [] => .nothing s
  | tree :: rest => by
    rw [Tree.outlineAllWithin, Tree.visitAll]
    refine (tree.finds_visit s).append fun t depth_eq => ?_
    rw [← depth_eq]
    exact Tree.finds_visitAll t rest

end

/-- The outline of a tree is what it has within no suite. -/
theorem Tree.outline_eq (tree : Tree) : tree.outline = tree.outlineWithin 0 := by
  have found := tree.finds_visit {}
  generalize tree.outlineWithin _ = headings at found
  unfold outline EStateM.run
  generalize tree.visit {} = result at found
  cases found with
  | ok headings => rfl
  | error e => rfl

end Offside
