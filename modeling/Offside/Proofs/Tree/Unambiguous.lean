import Mathlib.Data.List.Induction
import Offside.Proofs.Layout.Extent
import Offside.Proofs.Program.Traces
import Offside.Tree.Basic

/-!
# Trees are read in one way

The tree of a program says what the items of its source say and adds nothing: from left to right it gives the
items back, and no other tree of the shape that trees of programs have gives back the same.

## The model

`Tree.flatten` writes a tree out as the traces of items, by the rules of its nodes alone. `Tree.IsProgram` is
the shape: statements that each have an item and own at most one suite, suites that each have a statement, and
before all of these possibly one suite that no line owns. The trees of this shape are the trees of proper
programs (`Program.Proper.isProgram`, `Tree.IsProgram.exists_program`), and what a tree of a program flattens
to is what the program keeps of its items (`Program.flatten_tree`); so that a stretch of items spells one
program (`Program.ofStretch_eq_ok_iff`) carries over to trees.

The suite that no line owns is there exactly when the first code line is indented: any other scope is opened
right after a line, and so by a statement.
-/

namespace Offside

open Layout (Token CodeLine)

namespace Tree

/-! ### Flattening -/

mutual

/-- What a tree keeps of items, in their order: a statement has its items, the end of its line and then what
it owns, and a suite stands between its opening and its end. -/
def flatten : Tree → List Item.Trace
  | .node rule place? children =>
    if rule = .statement then (children.filterMap item?).map .lexeme ++ [.newline] ++ flattenNodes children
    else if rule = .suite then .indent place? :: (flattenAll children ++ [.dedent])
    else flattenAll children
  | .leaf item => [.lexeme item]
  | .token .. | .foreign => []

/-- What trees in a row keep of items. -/
def flattenAll : List Tree → List Item.Trace
  | [] => []
  | tree :: rest => tree.flatten ++ flattenAll rest

/-- What the nodes among trees keep of items. -/
def flattenNodes : List Tree → List Item.Trace
  | [] => []
  | .leaf _ :: rest => flattenNodes rest
  | tree :: rest => tree.flatten ++ flattenNodes rest

end

theorem flatten_suite (place : Place) (statements : List Tree) :
    (suite place statements).flatten = .indent (some place) :: (flattenAll statements ++ [.dedent]) := by
  rw [suite, flatten, if_neg Rule.suite_ne_statement, if_pos rfl]

theorem flattenAll_append (first second : List Tree) :
    flattenAll (first ++ second) = flattenAll first ++ flattenAll second := by
  induction first with
  | nil => simp [flattenAll]
  | cons tree rest ih => simp [flattenAll, ih]

theorem flattenNodes_map_leaf_append (items : List Item) (suites : List Tree) :
    flattenNodes (items.map leaf ++ suites) = flattenNodes suites := by
  induction items with
  | nil => rfl
  | cons item rest ih => rw [List.map_cons, List.cons_append, flattenNodes, ih]

theorem flatten_line (items : List Item) :
    (statement items []).flatten = items.map .lexeme ++ [.newline] := by
  rw [statement, flatten, if_pos rfl, List.append_nil, filterMap_item?_map_leaf, ← List.append_nil (items.map leaf),
    flattenNodes_map_leaf_append, flattenNodes, List.append_nil]

theorem flatten_group (items : List Item) (place : Place) (statements : List Tree) :
    (statement items [suite place statements]).flatten =
      items.map .lexeme ++ [.newline] ++
        .indent (some place) :: (flattenAll statements ++ [.dedent]) := by
  have owned : flattenNodes [suite place statements] =
      .indent (some place) :: (flattenAll statements ++ [.dedent]) := by
    rw [← flatten_suite, suite, flattenNodes, flattenNodes, List.append_nil]
    simp
  rw [statement, flatten, if_pos rfl, filterMap_item?_children, flattenNodes_map_leaf_append, owned]

end Tree

theorem Block.flattenAll_trees (b : Block) : Tree.flattenAll b.trees = b.traces := by
  induction b with
  | empty => rfl
  | line before items ih =>
    rw [trees_line, Tree.flattenAll_append, ih, Tree.flattenAll, Tree.flattenAll, Tree.flatten_line,
      List.append_nil, traces]
  | group before items place suite ih ih_suite =>
    rw [trees_group, Tree.flattenAll_append, ih, Tree.flattenAll, Tree.flattenAll, Tree.flatten_group,
      ih_suite, List.append_nil, traces]
    simp only [List.append_assoc]

theorem Program.flatten_tree (p : Program) : p.tree.flatten = p.traces := by
  rw [tree, Tree.flatten, if_neg Rule.start_ne_statement, if_neg Rule.start_ne_suite]
  obtain ⟨leading?, body⟩ := p
  cases leading? with
  | none => exact body.flattenAll_trees
  | some leading =>
    obtain ⟨place, suite⟩ := leading
    rw [trees, Tree.flattenAll_append, Block.flattenAll_trees]
    simp [traces, leadingTraces, Tree.flattenAll, Tree.flatten_suite, suite.flattenAll_trees]

/-! ### The shape of a tree -/

namespace Tree

/-- The tree of a statement: it has an item and stands where its first item stands, and after its items comes
at most one suite, which has a statement and nothing but statements. -/
inductive IsStatement : Tree → Prop
  | line {items : List Item} (some_item : items ≠ []) : IsStatement (statement items [])
  | group {items : List Item} {place : Place} {statements : List Tree} (some_item : items ≠ [])
      (some_statement : statements ≠ []) (each : ∀ t ∈ statements, IsStatement t) :
      IsStatement (statement items [suite place statements])

/-- The tree of a program: it has nothing but statements, except that a suite may come first, and stands where
the first of these stands. -/
inductive IsProgram : Tree → Prop
  | plain {statements : List Tree} (each : ∀ t ∈ statements, t.IsStatement) :
      IsProgram (.node .start (statements.head?.bind place?) statements)
  | indented {place : Place} {inner statements : List Tree} (some_statement : inner ≠ [])
      (within : ∀ t ∈ inner, t.IsStatement) (each : ∀ t ∈ statements, t.IsStatement) :
      IsProgram (.node .start (some place) (suite place inner :: statements))

end Tree

theorem Block.trees_ne_nil {b : Block} (h : b ≠ .empty) : b.trees ≠ [] := by
  cases b with
  | empty => exact absurd rfl h
  | line before items => simp
  | group before items place suite => simp

theorem Block.Proper.isStatement {b : Block} (h : b.Proper) : ∀ t ∈ b.trees, t.IsStatement := by
  induction b with
  | empty => simp
  | line before items ih =>
    intro t ht
    rw [trees_line, List.mem_append, List.mem_singleton] at ht
    rcases ht with ht | rfl
    · exact ih h.1 t ht
    · exact .line h.2
  | group before items place suite ih ih_suite =>
    obtain ⟨before_proper, some_item, suite_proper, some_statement⟩ := h
    intro t ht
    rw [trees_group, List.mem_append, List.mem_singleton] at ht
    rcases ht with ht | rfl
    · exact ih before_proper t ht
    · exact .group some_item (trees_ne_nil some_statement) (ih_suite suite_proper)

theorem Program.Proper.isProgram {p : Program} (h : p.Proper) : p.tree.IsProgram := by
  obtain ⟨leading?, body⟩ := p
  cases leading? with
  | none => exact .plain h.body.isStatement
  | some leading =>
    obtain ⟨suite_proper, some_statement⟩ := h.leading leading rfl
    exact .indented (Block.trees_ne_nil some_statement) suite_proper.isStatement h.body.isStatement

/-- Trees that can each be added to any block are the trees of a block. -/
theorem Block.exists_of_each {trees : List Tree}
    (each : ∀ t ∈ trees, ∀ before : Block, before.Proper →
      ∃ b : Block, b.Proper ∧ b.trees = before.trees ++ [t]) :
    ∃ b : Block, b.Proper ∧ b.trees = trees := by
  induction trees using List.reverseRecOn with
  | nil => exact ⟨.empty, trivial, rfl⟩
  | append_singleton trees t ih =>
    obtain ⟨before, proper, rfl⟩ := ih fun u hu => each u (List.mem_append_left _ hu)
    exact each t (by simp) before proper

/-- A statement can be added to any block. -/
theorem Tree.IsStatement.exists_block {t : Tree} (h : t.IsStatement) :
    ∀ before : Block, before.Proper → ∃ b : Block, b.Proper ∧ b.trees = before.trees ++ [t] := by
  induction h with
  | @line items some_item =>
    intro before proper
    exact ⟨.line before items, ⟨proper, some_item⟩, before.trees_line items⟩
  | @group items place statements some_item some_statement each ih =>
    intro before proper
    obtain ⟨suite, suite_proper, rfl⟩ := Block.exists_of_each ih
    have not_empty : suite ≠ .empty := by
      rintro rfl
      exact some_statement rfl
    exact ⟨.group before items place suite, ⟨proper, some_item, suite_proper, not_empty⟩,
      before.trees_group items place suite⟩

/-- A tree of the shape of a program is the tree of one. -/
theorem Tree.IsProgram.exists_program {t : Tree} (h : t.IsProgram) :
    ∃ p : Program, p.Proper ∧ p.tree = t := by
  cases h with
  | plain each =>
    obtain ⟨body, proper, rfl⟩ := Block.exists_of_each fun t ht => (each t ht).exists_block
    exact ⟨⟨none, body⟩, ⟨by simp [ProperLeading], proper⟩, rfl⟩
  | @indented place inner statements some_statement within each =>
    obtain ⟨suite, suite_proper, rfl⟩ := Block.exists_of_each fun t ht => (within t ht).exists_block
    obtain ⟨body, proper, rfl⟩ := Block.exists_of_each fun t ht => (each t ht).exists_block
    have not_empty : suite ≠ .empty := by
      rintro rfl
      exact some_statement rfl
    refine ⟨⟨some (place, suite), body⟩, ⟨?_, proper⟩, rfl⟩
    intro leading hl
    obtain rfl := Option.some.inj hl
    exact ⟨suite_proper, not_empty⟩

/-! ### The only reading -/

/-- The tree is a reading of the items, and the only one. -/
structure Tree.IsOnlyReading (tree : Tree) (items : List Item) : Prop where
  shape : tree.IsProgram
  /-- From left to right the tree gives the items back, the lexemes with all that is known of them and the
  openings of scopes with their places. -/
  flatten_eq : tree.flatten = items.map Item.trace
  unique : ∀ t : Tree, t.IsProgram → t.flatten = items.map Item.trace → t = tree

/-- A stretch that spells a program is read in one way only. -/
theorem Program.isOnlyReading_of_ofStretch {stretch : Stretch} {p : Program}
    (h : Program.ofStretch stretch = .ok p) : p.tree.IsOnlyReading stretch.items := by
  obtain ⟨failure, proper, traces_eq⟩ := ofStretch_eq_ok_iff.1 h
  refine ⟨proper.isProgram, p.flatten_tree.trans traces_eq, fun t shape flat => ?_⟩
  obtain ⟨q, q_proper, rfl⟩ := shape.exists_program
  have read : Program.ofStretch stretch = .ok q :=
    ofStretch_eq_ok_iff.2 ⟨failure, q_proper, q.flatten_tree.symm.trans flat⟩
  rw [Except.ok.inj (read.symm.trans h)]

/-! ### The suite that no line owns -/

theorem Block.Proper.head_traces {b : Block} (h : b.Proper) :
    ∀ t ∈ b.traces.head?, ∃ item, t = .lexeme item := by
  have of_line {before : Block} {items : List Item} (rest : List Item.Trace) (some_item : items ≠ [])
      (ih : ∀ t ∈ before.traces.head?, ∃ item, t = .lexeme item) :
      ∀ t ∈ (before.traces ++ (items.map Item.Trace.lexeme ++ rest)).head?, ∃ item, t = .lexeme item := by
    intro t ht
    rcases eq : before.traces with _ | ⟨u, us⟩
    · obtain ⟨item, items, rfl⟩ := List.exists_cons_of_ne_nil some_item
      rw [eq] at ht
      exact ⟨item, (Option.some.inj ht).symm⟩
    · rw [eq] at ht ih
      exact ih t ht
  induction b with
  | empty => simp [traces]
  | line before items ih => exact of_line _ h.2 (ih h.1)
  | group before items place suite ih _ =>
    rw [traces, List.append_assoc, List.append_assoc]
    exact of_line _ h.2.1 (ih h.1)

/-- A program begins with a suite that no line owns when what it is read from begins with the opening of a
scope. -/
theorem Program.Proper.leading_iff {p : Program} (h : p.Proper) :
    p.leading?.isSome ↔ ∃ place?, p.traces.head? = some (.indent place?) := by
  obtain ⟨leading?, body⟩ := p
  cases leading? with
  | some leading => exact iff_of_true rfl ⟨some leading.1, rfl⟩
  | none =>
    refine iff_of_false (by simp) ?_
    rintro ⟨place?, head⟩
    obtain ⟨item, lexeme⟩ := h.body.head_traces _ head
    cases lexeme

/-- The tree of a program shows whether it begins with a suite that no line owns. -/
theorem Program.Proper.exists_suite_iff {p : Program} (h : p.Proper) :
    (∃ place? place inner statements,
        p.tree = .node .start place? (Tree.suite place inner :: statements)) ↔ p.leading?.isSome := by
  obtain ⟨leading?, body⟩ := p
  cases leading? with
  | some leading => exact iff_of_true ⟨some leading.1, leading.1, leading.2.trees, body.trees, rfl⟩ rfl
  | none =>
    refine iff_of_false ?_ (by simp)
    rintro ⟨place?, place, inner, statements, eq⟩
    have children : body.trees = Tree.suite place inner :: statements := by
      rw [tree] at eq
      exact (Tree.node.inj eq).2.2
    have statement := h.body.isStatement (Tree.suite place inner) (by simp [children])
    generalize whole : Tree.suite place inner = t at statement
    cases statement <;> simp [Tree.suite, Tree.statement] at whole

variable {tab : TabWidth} {source : List Char}

/-- What a source of readable lines is read from begins with the opening of a scope when the first line is
indented. -/
theorem exists_indent_head_iff (readable : ∀ line ∈ Layout.codeLines source, IsReadable line.content) :
    (∃ place?, ((Item.ofTokens (Layout.run tab.lineOptions source).tokens).map Item.trace).head? =
        some (.indent place?)) ↔ Layout.startsIndented tab.lineOptions.tabWidth source := by
  rcases Layout.exists_tokens_run tab.nonneg_lineOptions source with
    ⟨none, tokens_eq⟩ | ⟨line, rest, more, lines_eq, tokens_eq⟩
  · rw [tokens_eq]
    refine iff_of_false ?_ (by simp [Layout.startsIndented, none])
    simp [Token.items, Token.endOfFile]
  · rw [tokens_eq]
    by_cases indented : Layout.startsIndented tab.lineOptions.tabWidth source
    · refine iff_of_true ⟨some ⟨line.number, 1⟩, ?_⟩ indented
      rw [if_pos indented]
      rfl
    · refine iff_of_false ?_ indented
      have some_item := (readable line (by simp [lines_eq])).has_lexeme
      obtain ⟨l, lexemes, lex_eq⟩ := List.exists_cons_of_ne_nil some_item
      rw [if_neg indented, line.tokens_eq rfl]
      simp [Token.items, CodeLine.token, Token.code, lex_eq, Item.ofLexeme, Item.trace]

/-- A scope is opened at the beginning of its line. -/
theorem column_of_mem_ofTokens_run {item : Item}
    (mem : item ∈ Item.ofTokens (Layout.run tab.lineOptions source).tokens) (opens : item.symbol = .indent) :
    item.place.column = 1 := by
  obtain ⟨t, ht, hi⟩ := List.mem_flatMap.1 mem
  obtain ⟨kind, rfl⟩ := Token.eq_ofToken_of_mem_items hi opens
  rw [Layout.eq_indent_of_mem_run tab.nonneg_lineOptions ht kind]
  rfl

/-- **The tree of a source is the only way to read its items**: nothing in them goes wrong, the tree
flattens to them and has the shape of a program, and no other tree does both. Each suite stands at the
beginning of the line that opens it, and a suite comes first when the first code line is indented. -/
theorem tree_isOnlyReading {p : Program} (h : parse tab source = .ok p) :
    (Stretch.ofSource tab source).failure? = none ∧
    p.tree.IsOnlyReading (Stretch.ofSource tab source).items ∧
    (∀ item ∈ (Stretch.ofSource tab source).items, item.symbol = .indent → item.place.column = 1) ∧
    ((∃ place? place inner statements,
        p.tree = .node .start place? (Tree.suite place inner :: statements)) ↔
      Layout.startsIndented tab.columns source) := by
  have readable := readable_of_parse h
  have items_eq := Stretch.ofSource_eq tab fun l hl => (readable l hl).lexes
  obtain ⟨failure, proper, traces_eq⟩ := Program.ofStretch_eq_ok_iff.1 h
  refine ⟨failure, Program.isOnlyReading_of_ofStretch h, ?_, ?_⟩
  · rw [items_eq]
    exact fun item mem opens => column_of_mem_ofTokens_run mem opens
  · rw [proper.exists_suite_iff, proper.leading_iff, traces_eq, items_eq]
    exact exists_indent_head_iff readable

/-- A source whose first line is indented, with a suite below the last line and one line that stands in none
of the columns still open. -/
theorem tree_isOnlyReading_indented :
    ∃ p, parse .standard "  a\n\tb 1\n c\n\td".toList = .ok p ∧
      p.tree.IsOnlyReading (Stretch.ofSource .standard "  a\n\tb 1\n c\n\td".toList).items ∧
      ∃ place? place inner statements,
        p.tree = .node .start place? (Tree.suite place inner :: statements) := by
  have parsed : parse .standard "  a\n\tb 1\n c\n\td".toList = .ok ⟨some (⟨1, 1⟩, .group .empty
        [⟨.lexeme .name, ['a'], ⟨1, 3⟩, some ⟨1, 4⟩⟩] ⟨2, 1⟩
        (.line .empty [⟨.lexeme .name, ['b'], ⟨2, 5⟩, some ⟨2, 6⟩⟩,
          ⟨.lexeme .number, ['1'], ⟨2, 7⟩, some ⟨2, 8⟩⟩])),
      .group .empty [⟨.lexeme .name, ['c'], ⟨3, 2⟩, some ⟨3, 3⟩⟩] ⟨4, 1⟩
        (.line .empty [⟨.lexeme .name, ['d'], ⟨4, 5⟩, some ⟨4, 6⟩⟩])⟩ := by decide +kernel
  obtain ⟨-, only, -, first⟩ := tree_isOnlyReading parsed
  exact ⟨_, parsed, only, first.2 (by decide)⟩

end Offside
