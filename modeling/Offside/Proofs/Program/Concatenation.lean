import Offside.Proofs.Layout.Concatenation
import Offside.Proofs.Program.Places
import Offside.Proofs.Tree.Unambiguous

/-!
# Programs one after the other

When the first code line of a source stands in column 0, putting the source below another puts its program below
the other's: the statements of the two come one after the other, and each keeps its own. If one of the sources is no
program, the fault is that of the first that is none.

## The model

What a source is read from is the items of its layout, and a program keeps a trace of each
(`Program.ofStretch_eq_ok_iff`). A suite that ends leaves the same trace wherever it is closed, so what the first
source leaves open may be closed by the first line of the second (`traces_run_append`). `Block.append` puts
statements after others, which puts what they keep one after the other; and a program that does not begin with an
indented line has no suite above its statements, which could not stand below others.
-/

namespace Offside

open Layout (Token CodeLine lineBelow)

/-! ### Further down -/

/-- The place on another line. -/
def Place.mapLine (f : Int → Int) (place : Place) : Place := { place with line := f place.line }

mutual

/-- The tree with all its places moved. What is no item of a source has no place. -/
def Tree.mapPlaces (f : Place → Place) : Tree → Tree
  | .node rule place? children => .node rule (place?.map f) (Tree.mapPlacesAll f children)
  | .leaf item => .leaf (item.mapPlaces f)
  | .token symbol text line? => .token symbol text line?
  | .foreign => .foreign

/-- Trees with all their places moved. -/
def Tree.mapPlacesAll (f : Place → Place) : List Tree → List Tree
  | [] => []
  | tree :: rest => tree.mapPlaces f :: Tree.mapPlacesAll f rest

end

/-- What is wrong with something on another line. -/
def ParseError.Cause.mapLine (f : Int → Int) : ParseError.Cause → ParseError.Cause
  | .unexpectedItem item => .unexpectedItem (item.mapPlaces (Place.mapLine f))
  | cause => cause

/-- The fault on another line. -/
def ParseError.mapLine (f : Int → Int) (e : ParseError) : ParseError :=
  ⟨e.cause.mapLine f, e.line?.map f, e.column?⟩

/-- If an item is out of place, the line where it stands is told. -/
theorem ParseError.detail_mapLine (f : Int → Int) (e : ParseError) : (e.mapLine f).detail =
    match e.cause with
    | .unexpectedItem item =>
      "Unexpected token Token(" ++ Text.quote item.symbol.label.toList ++ ", " ++ Text.quote item.text
        ++ ") at line " ++ toString (f item.place.line) ++ ", column " ++ toString item.place.column ++ "."
    | _ => e.detail := by
  obtain ⟨cause, line?, column?⟩ := e
  cases cause <;> rfl

/-- The wording of a fault tells the line to which it has moved. -/
theorem ParseError.message_mapLine (f : Int → Int) (e : ParseError) : (e.mapLine f).message =
    match e.line?, e.column? with
    | some line, some column =>
      "Parse error at line " ++ toString (f line) ++ ":" ++ toString column ++ " - " ++ (e.mapLine f).detail
    | some line, none => "Parse error at line " ++ toString (f line) ++ " - " ++ (e.mapLine f).detail
    | none, _ => (e.mapLine f).detail := by
  obtain ⟨cause, line?, column?⟩ := e
  cases line? <;> cases column? <;> rfl

/-- The trace that an item leaves when it is moved. -/
def Item.Trace.mapPlaces (f : Place → Place) : Item.Trace → Item.Trace
  | .lexeme item => .lexeme (item.mapPlaces f)
  | .newline => .newline
  | .indent place? => .indent (place?.map f)
  | .dedent => .dedent

section Moved

variable (f : Place → Place)

theorem Tree.mapPlacesAll_eq_map (trees : List Tree) : mapPlacesAll f trees = trees.map (mapPlaces f) := by
  induction trees with
  | nil => rfl
  | cons tree rest ih => rw [mapPlacesAll, ih, List.map_cons]

/-- A statement stands where its first item stands, moved or not. -/
theorem Tree.mapPlaces_statement (items : List Item) (suites : List Tree) :
    (statement items suites).mapPlaces f =
      statement (items.map (Item.mapPlaces f)) (suites.map (mapPlaces f)) := by
  have place : (items.head?.map Item.place).map f = (items.map (Item.mapPlaces f)).head?.map Item.place := by
    cases items <;> rfl
  simp [statement, mapPlaces, mapPlacesAll_eq_map, place, Function.comp_def]

theorem Tree.mapPlaces_suite (place : Place) (statements : List Tree) :
    (suite place statements).mapPlaces f = suite (f place) (statements.map (mapPlaces f)) := by
  rw [suite, mapPlaces, mapPlacesAll_eq_map]
  rfl

theorem Block.trees_mapPlaces (b : Block) : (b.mapPlaces f).trees = b.trees.map (Tree.mapPlaces f) := by
  induction b with
  | empty => rfl
  | line before items ih =>
    rw [mapPlaces, trees_line, trees_line, ih, List.map_append, List.map_singleton, Tree.mapPlaces_statement]
    rfl
  | group before items place suite ih ih_suite =>
    rw [mapPlaces, trees_group, trees_group, ih, ih_suite, List.map_append, List.map_singleton,
      Tree.mapPlaces_statement, List.map_singleton, Tree.mapPlaces_suite]

theorem Item.trace_mapPlaces (item : Item) : (item.mapPlaces f).trace = item.trace.mapPlaces f := by
  obtain ⟨symbol, text, place, stop?⟩ := item
  cases symbol <;> rfl

theorem Block.traces_mapPlaces (b : Block) :
    (b.mapPlaces f).traces = b.traces.map (Item.Trace.mapPlaces f) := by
  have lexemes (items : List Item) : (items.map Item.Trace.lexeme).map (Item.Trace.mapPlaces f) =
      (items.map (Item.mapPlaces f)).map .lexeme := by
    simp [Function.comp_def, Item.Trace.mapPlaces]
  induction b with
  | empty => rfl
  | line before items ih => simp [mapPlaces, traces, ih, ← lexemes, Item.Trace.mapPlaces]
  | group before items place suite ih ih_suite =>
    simp [mapPlaces, traces, ih, ih_suite, ← lexemes, Item.Trace.mapPlaces]

theorem Block.mapPlaces_ne_empty {b : Block} (h : b ≠ .empty) : b.mapPlaces f ≠ .empty := by
  cases b with
  | empty => exact absurd rfl h
  | line before items => simp [mapPlaces]
  | group before items place suite => simp [mapPlaces]

theorem Block.Proper.mapPlaces {b : Block} (h : b.Proper) : (b.mapPlaces f).Proper := by
  induction b with
  | empty => trivial
  | line before items ih => exact ⟨ih h.1, by simpa using h.2⟩
  | group before items place suite ih ih_suite =>
    obtain ⟨before_proper, some_item, suite_proper, some_statement⟩ := h
    exact ⟨ih before_proper, by simpa using some_item, ih_suite suite_proper, mapPlaces_ne_empty f some_statement⟩

end Moved

section Lines

variable (f : Int → Int)

theorem Layout.Token.items_mapLine (t : Token) :
    (t.mapLine f).items = t.items.map (Item.mapPlaces (Place.mapLine f)) := by
  obtain ⟨kind, payload, line, column⟩ := t
  cases kind with
  | code =>
    simp only [items, mapLine, List.map_map]
    rfl
  | _ => rfl

theorem Item.ofTokens_map_mapLine (tokens : List Token) :
    ofTokens (tokens.map (Token.mapLine f)) = (ofTokens tokens).map (mapPlaces (Place.mapLine f)) := by
  induction tokens with
  | nil => rfl
  | cons t rest ih => rw [List.map_cons, ofTokens_cons, ofTokens_cons, ih, t.items_mapLine f, List.map_append]

/-- What is wrong with a line is wrong with it wherever it stands. -/
theorem LineFault.mapLine {c : Token} {e : ParseError} (h : LineFault c e) :
    LineFault (c.mapLine f) (e.mapLine f) := by
  cases h with
  | character stops => exact .character stops
  | nothing lexes no_lexeme => exact .nothing lexes no_lexeme

end Lines

/-! ### Statements after others -/

/-- Statements after those of another block. -/
def Block.append (b : Block) : Block → Block
  | .empty => b
  | .line before items => .line (b.append before) items
  | .group before items place suite => .group (b.append before) items place suite

theorem Block.traces_append (b c : Block) : (b.append c).traces = b.traces ++ c.traces := by
  induction c with
  | empty => exact (List.append_nil _).symm
  | line before items ih => simp [append, traces, ih]
  | group before items place suite ih _ => simp [append, traces, ih]

theorem Block.trees_append (b c : Block) : (b.append c).trees = b.trees ++ c.trees := by
  induction c with
  | empty => exact (List.append_nil _).symm
  | line before items ih => simp [append, ih]
  | group before items place suite ih _ => simp [append, ih]

theorem Program.trees_append (p : Program) {q : Program} (h : q.leading? = none) (f : Place → Place) :
    (Program.mk p.leading? (p.body.append (q.body.mapPlaces f))).trees =
      p.trees ++ q.trees.map (Tree.mapPlaces f) := by
  simp [trees, h, Block.trees_append, Block.trees_mapPlaces]

theorem Block.Proper.append {b c : Block} (h : b.Proper) (h' : c.Proper) : (b.append c).Proper := by
  induction c with
  | empty => exact h
  | line before items ih => exact ⟨ih h'.1, h'.2⟩
  | group before items place suite ih _ => exact ⟨ih h'.1, h'.2⟩

variable {tab : TabWidth} {source first second : List Char} {p q : Program} {e : ParseError}

/-! ### What is read -/

/-- A source is read as the program that keeps what its lines leave, if all of them are readable. -/
theorem parse_eq_ok_iff :
    parse tab source = .ok p ↔ (∀ line ∈ Layout.codeLines source, IsReadable line.content) ∧ p.Proper ∧
      p.traces = (Item.ofTokens (Layout.run tab.lineOptions source).tokens).map Item.trace := by
  constructor
  · intro h
    have readable := readable_of_parse h
    obtain ⟨-, proper, traces_eq⟩ := Program.ofStretch_eq_ok_iff.1 h
    rw [Stretch.ofSource_eq tab fun l hl => (readable l hl).lexes] at traces_eq
    exact ⟨readable, proper, traces_eq⟩
  · rintro ⟨readable, proper, traces_eq⟩
    have items_eq := Stretch.ofSource_eq tab fun l hl => (readable l hl).lexes
    exact Program.ofStretch_eq_ok_iff.2 ⟨by rw [items_eq], proper, by rw [items_eq, traces_eq]⟩

/-- Suites end with the same trace on any line. -/
theorem Item.map_trace_ofTokens_dedents (n : Nat) (number : Int) :
    (ofTokens (List.replicate n (.dedent number))).map trace = List.replicate n .dedent := by
  induction n with
  | zero => rfl
  | succ n ih =>
    rw [List.replicate_succ, ofTokens_cons, List.map_append, ih]
    rfl

/-- The layout of a source below another adds what its layout leaves by itself. -/
theorem traces_run_append (ended : first = [] ∨ first.getLast? = some '\n')
    (flush : ∀ line ∈ (Layout.codeLines second).head?, line.width tab.columns = 0) :
    (Item.ofTokens (Layout.run tab.lineOptions (first ++ second)).tokens).map Item.trace =
      (Item.ofTokens (Layout.run tab.lineOptions first).tokens).map Item.trace ++
        ((Item.ofTokens (Layout.run tab.lineOptions second).tokens).map Item.trace).map
          (Item.Trace.mapPlaces (Place.mapLine (lineBelow first))) := by
  obtain ⟨out, s, number, reached, together⟩ :=
    Layout.exists_run_append (o := tab.lineOptions) tab.nonneg_lineOptions ended flush
  have ends : Item.ofTokens [Token.endOfFile ((Text.lines first).length + 1)] = [] := rfl
  rw [together, reached.run_eq]
  simp only [Layout.Emission.tokens_append, Layout.closing, Layout.Emission.mapLines, Item.ofTokens_append, ends,
    Item.ofTokens_map_mapLine, List.map_append, Item.map_trace_ofTokens_dedents, List.map_map, List.append_nil]
  congr 1
  exact List.map_congr_left fun item _ => Item.trace_mapPlaces _ item

/-- A program whose first line stands in column 0 has no suite that no line owns. -/
theorem leading?_eq_none (h : parse tab second = .ok q)
    (flush : ∀ line ∈ (Layout.codeLines second).head?, line.width tab.columns = 0) : q.leading? = none := by
  obtain ⟨readable, proper, traces_eq⟩ := parse_eq_ok_iff.1 h
  have not_indented : ¬ Layout.startsIndented tab.columns second = true := by
    simp only [Layout.startsIndented, Option.any_eq_true, decide_eq_true_eq, not_exists, not_and]
    intro line hl
    rw [flush line hl]
    exact Int.lt_irrefl 0
  have none : ¬ q.leading?.isSome = true := by
    rw [proper.leading_iff, traces_eq, exists_indent_head_iff readable]
    exact not_indented
  simpa using none

theorem readable_append (ended : first = [] ∨ first.getLast? = some '\n')
    (above : ∀ line ∈ Layout.codeLines first, IsReadable line.content)
    (below : ∀ line ∈ Layout.codeLines second, IsReadable line.content) :
    ∀ line ∈ Layout.codeLines (first ++ second), IsReadable line.content := by
  intro line hl
  rw [Layout.codeLines_append ended] at hl
  rcases List.mem_append.1 hl with hl | hl
  · exact above line hl
  · obtain ⟨original, ho, rfl⟩ := List.mem_map.1 hl
    exact below original ho

/-- **The program of two sources** has the statements of the first and then those of the second, further down. -/
theorem parse_append_of_ok (ended : first = [] ∨ first.getLast? = some '\n')
    (flush : ∀ line ∈ (Layout.codeLines second).head?, line.width tab.columns = 0)
    (hp : parse tab first = .ok p) (hq : parse tab second = .ok q) :
    parse tab (first ++ second) =
      .ok ⟨p.leading?, p.body.append (q.body.mapPlaces (Place.mapLine (lineBelow first)))⟩ := by
  obtain ⟨above, p_proper, p_traces⟩ := parse_eq_ok_iff.1 hp
  obtain ⟨below, q_proper, q_traces⟩ := parse_eq_ok_iff.1 hq
  have no_leading := leading?_eq_none hq flush
  refine parse_eq_ok_iff.2 ⟨readable_append ended above below, ?_, ?_⟩
  · exact ⟨p_proper.leading, p_proper.body.append (q_proper.body.mapPlaces _)⟩
  · rw [traces_run_append ended flush, ← p_traces, ← q_traces]
    simp [Program.traces, Block.traces_append, Block.traces_mapPlaces, no_leading, leadingTraces]

/-- A fault in the first of two sources comes before anything in the second. -/
theorem parse_append_of_error (ended : first = [] ∨ first.getLast? = some '\n')
    (h : parse tab first = .error e) : parse tab (first ++ second) = .error e := by
  rcases exists_program_or_fault tab first with
    ⟨-, p, parsed⟩ | ⟨before, line, rest, e', split, readable, -, fault, failed⟩
  · rw [parsed] at h
    cases h
  · obtain rfl := Except.error.inj (failed.symm.trans h)
    have split' : Layout.codeLines (first ++ second) =
        before ++ line :: (rest ++ (Layout.codeLines second).map (CodeLine.mapNumber (lineBelow first))) := by
      rw [Layout.codeLines_append ended, split, List.append_assoc, List.cons_append]
    exact parse_of_fault tab split' readable fault

/-- A fault in the second of two sources is found where it stands, if the first is a program. -/
theorem parse_append_of_ok_of_error (ended : first = [] ∨ first.getLast? = some '\n')
    (hp : parse tab first = .ok p) (h : parse tab second = .error e) :
    parse tab (first ++ second) = .error (e.mapLine (lineBelow first)) := by
  have above := readable_of_parse hp
  rcases exists_program_or_fault tab second with
    ⟨-, q, parsed⟩ | ⟨before, line, rest, e', split, readable, -, fault, failed⟩
  · rw [parsed] at h
    cases h
  · obtain rfl := Except.error.inj (failed.symm.trans h)
    have moved : (line.mapNumber (lineBelow first)).token tab.lineOptions =
        (line.token tab.lineOptions).mapLine (lineBelow first) := rfl
    have split' : Layout.codeLines (first ++ second) =
        (Layout.codeLines first ++ before.map (CodeLine.mapNumber (lineBelow first))) ++
          line.mapNumber (lineBelow first) :: rest.map (CodeLine.mapNumber (lineBelow first)) := by
      rw [Layout.codeLines_append ended, split, List.map_append, List.map_cons, List.append_assoc]
    have readable' : ∀ l ∈ Layout.codeLines first ++ before.map (CodeLine.mapNumber (lineBelow first)),
        IsReadable l.content := by
      intro l hl
      rcases List.mem_append.1 hl with hl | hl
      · exact above l hl
      · obtain ⟨original, ho, rfl⟩ := List.mem_map.1 hl
        exact readable original ho
    exact parse_of_fault tab split' readable' (moved ▸ fault.mapLine _)

end Offside
