import Mathlib.Data.List.Nodup
import Offside.Proofs.Layout.Numbering
import Offside.Proofs.Lexeme.Separator
import Offside.Proofs.Program.Concatenation
import Offside.Proofs.Source.Outline

/-!
# Texts of headings

A heading is written with a space between each two lexemes of its line. Nothing is lost by that: the text of a
heading has the same lexemes as the line, and as a source of its own it is a program of one statement, made of them.

## The model

A heading corresponds to a code line of its source (`Outline.Matches`), and its text is made of the lexemes of that
line. They are whole (`Lexeme.isWhole_of_mem_lexFrom`), so they are found again (`Lexeme.lexFrom_spaced`). The text is
a content that stands on one line and does not end in a carriage return (`isContent_spaced`); laid out, it is the only
code line (`Layout.codeLines_of_isContent`), which does not turn anywhere (`Layout.run_of_isContent`).
-/

namespace Offside

open Layout (Token CodeLine IsContent codes)

/-! ### A source of one line -/

namespace Layout

variable {text : List Char}

theorem codeLines_of_isContent (h : IsContent text) (unended : text.getLast? ≠ some '\r') :
    codeLines text = [⟨1, [], text⟩] := by
  have blank : ∀ c ∈ ([] : List Char), isMarginChar c = true := by simp
  rw [codeLines, Text.lines_eq_singleton h.ne_nil h.single unended]
  exact codeLinesFrom_content blank h 1

theorem run_of_isContent (h : IsContent text) (unended : text.getLast? ≠ some '\r') (o : Options) :
    run o text = ⟨⟨(CodeLine.mk 1 [] text).tokens o ++ [.endOfFile 2], [], []⟩, [0], true⟩ := by
  have flush : (CodeLine.mk 1 [] text).width o.tabWidth = 0 := rfl
  have plain : (CodeLine.mk 1 [] text).mixed o = [] := by simp [CodeLine.mixed, CodeLine.isMixed]
  rw [run, codeLines_of_isContent h unended, Text.lines_eq_singleton h.ne_nil h.single unended]
  simp [runLines, step, flush, plain, closing, Emission.append_def]

end Layout

/-- A readable line in column 0 is a program of one statement. -/
theorem Program.ofSource_of_isContent {text : List Char} (h : IsContent text) (unended : text.getLast? ≠ some '\r')
    (readable : IsReadable text) (tab : TabWidth) :
    Program.ofSource tab text = .ok ⟨none, .line .empty (Token.code text 1 0).items⟩ := by
  have laid := Layout.run_of_isContent h unended tab.lineOptions
  have some_item : (Token.code text 1 0).items ≠ [] := by
    simpa [Token.items, Token.code] using readable.has_lexeme
  refine Program.ofSource_eq_ok_iff.2 ⟨parse_eq_ok_iff.2 ⟨?_, ⟨by simp [ProperLeading], trivial, some_item⟩, ?_⟩, ?_⟩
  · rw [Layout.codeLines_of_isContent h unended]
    simpa using readable
  · have ends : Item.ofTokens [Token.endOfFile 2] = [] := rfl
    rw [laid, Item.ofTokens_append, ends, List.append_nil, CodeLine.map_trace_tokens rfl]
    rfl
  · simp [laid]

/-! ### The lexemes of a line -/

section Spaced

open Lexeme (lex spaced face)

variable {content : List Char}

theorem isContent_spaced (single : '\n' ∉ content) (readable : IsReadable content) :
    IsContent (spaced (lex content).lexemes) ∧ (spaced (lex content).lexemes).getLast? ≠ some '\r' := by
  have whole : ∀ l ∈ (lex content).lexemes, l.IsWhole := by
    intro l mem
    exact (Lexeme.isWhole_of_mem_lexFrom mem).1
  have on_line : ∀ l ∈ (lex content).lexemes, '\n' ∉ l.text := by
    intro l mem feed
    exact single ((Lexeme.isWhole_of_mem_lexFrom mem).2 feed)
  obtain ⟨c, rest, spaced_eq, not_space, no_comment⟩ := Lexeme.exists_cons_spaced whole readable.has_lexeme
  refine ⟨⟨by simp [spaced_eq], ?_, Lexeme.not_newline_spaced on_line⟩,
    Lexeme.getLast?_spaced_ne_return whole on_line⟩
  intro d hd
  rw [spaced_eq] at hd
  obtain rfl := Option.some.inj hd
  refine ⟨?_, no_comment⟩
  simp only [Lexeme.isSpace, Bool.or_eq_false_iff] at not_space
  simp [Layout.isMarginChar, not_space]

theorem faces_lex_spaced (content : List Char) :
    (lex (spaced (lex content).lexemes)).stop? = none ∧
      (lex (spaced (lex content).lexemes)).lexemes.map face = (lex content).lexemes.map face := by
  refine Lexeme.lexFrom_spaced ?_ 1
  intro l mem
  exact (Lexeme.isWhole_of_mem_lexFrom mem).1

theorem isReadable_spaced (readable : IsReadable content) : IsReadable (spaced (lex content).lexemes) := by
  obtain ⟨ended, same⟩ := faces_lex_spaced content
  refine ⟨ended, ?_⟩
  intro none
  rw [none] at same
  exact readable.has_lexeme (List.map_eq_nil_iff.1 same.symm)

end Spaced

/-! ### Headings -/

/-- The symbol and the text of an item. -/
def Item.face (item : Item) : Item.Symbol × List Char := (item.symbol, item.text)

/-- The heading tells what stands on a code line, and tells it so that it can be read again. -/
structure Heading.Tells (heading : Heading) (code : Token) : Prop where
  line_eq : heading.line? = some code.line
  /-- The text of the heading can be cut into lexemes to its end. -/
  ended : (Lexeme.lex heading.text).stop? = none
  /-- They have the terminals and the texts of those of the line. -/
  faces_eq : (Lexeme.lex heading.text).lexemes.map Lexeme.face = (Lexeme.lex code.payload).lexemes.map Lexeme.face
  /-- As a source of its own the text is one code line. -/
  tokens_eq : ∀ tabWidth : Int,
    (Layout.run { tabWidth } heading.text).tokens = [.code heading.text 1 0, .endOfFile 2]
  /-- It is read as one statement, with items that have these terminals and texts again. -/
  statement : ∀ tab : TabWidth, ∃ items, Program.ofSource tab heading.text = .ok ⟨none, .line .empty items⟩ ∧
    items.map Item.face = (Lexeme.lex code.payload).lexemes.map fun l => (.lexeme l.terminal, l.text)

/-- What a readable line is called tells what stands on it. -/
theorem Heading.tells_ofCode {code : Token} (single : '\n' ∉ code.payload) (readable : IsReadable code.payload)
    (depth : Nat) : (Heading.ofCode code depth).Tells code := by
  obtain ⟨ended, faces_eq⟩ := faces_lex_spaced code.payload
  obtain ⟨isContent, unended⟩ := isContent_spaced single readable
  refine ⟨rfl, ended, faces_eq, ?_, ?_⟩
  · intro tabWidth
    have laid := Layout.run_of_isContent isContent unended { tabWidth }
    exact congrArg (·.tokens) laid
  · intro tab
    refine ⟨_, Program.ofSource_of_isContent isContent unended (isReadable_spaced readable) tab, ?_⟩
    have symbols := congrArg (List.map fun face : Lexeme.Terminal × List Char => (Item.Symbol.lexeme face.1, face.2))
      faces_eq
    rw [List.map_map, List.map_map] at symbols
    simp only [Token.items, Token.code, List.map_map]
    exact symbols

variable {tab : TabWidth} {source : List Char} {p : Program}

theorem exists_code_of_mem_headings (h : parse tab source = .ok p) {heading : Heading} (mem : heading ∈ p.headings) :
    ∃ code ∈ codes (Layout.run { tabWidth := tab.columns } source).tokens, ∃ depth, heading = .ofCode code depth := by
  obtain ⟨k, found⟩ := List.mem_iff_getElem?.1 mem
  obtain ⟨scope, -, corresponds⟩ := (Outline.matches_of_parse h).entry k heading found
  cases corresponds with
  | intro split _ _ _ last _ =>
    refine ⟨_, ?_, _, rfl⟩
    rw [split, Layout.codes_append]
    exact List.mem_append_left _ (List.mem_of_getLast? last)

/-- No two code lines stand on the same line. -/
theorem nodup_line_codes_run {o : Layout.Options} (nonneg : 0 ≤ o.tabWidth) (source : List Char) :
    ((codes (Layout.run o source).tokens).map Token.line).Nodup := by
  rw [Layout.codes_run nonneg, List.map_map, List.Nodup, List.pairwise_map]
  exact (Layout.pairwise_number_codeLines source).imp Int.ne_of_lt

/-- **The headings of a program are faithful.** The outline of a program has for each of its headings the one code
line on its line, and the heading tells what stands on that: its text has the same lexemes, is one code line as a
source of its own, and is read as one statement that is made of them. -/
theorem Program.tells_of_outline (h : parse tab source = .ok p) :
    ∃ headings, p.tree.outline = .ok headings ∧ ∀ heading ∈ headings,
      ∃ code ∈ codes (Layout.run { tabWidth := tab.columns } source).tokens, heading.Tells code ∧
        ∀ other ∈ codes (Layout.run { tabWidth := tab.columns } source).tokens,
          heading.line? = some other.line → other = code := by
  obtain ⟨readable, proper, -⟩ := parse_eq_ok_iff.1 h
  have nonneg : 0 ≤ ({ tabWidth := tab.columns } : Layout.Options).tabWidth := tab.nonneg_lineOptions
  refine ⟨p.headings, proper.outline_eq, ?_⟩
  intro heading mem
  obtain ⟨code, mem_codes, depth, rfl⟩ := exists_code_of_mem_headings h mem
  refine ⟨code, mem_codes, ?_, ?_⟩
  · rw [Layout.codes_run nonneg] at mem_codes
    obtain ⟨line, hl, rfl⟩ := List.mem_map.1 mem_codes
    exact Heading.tells_ofCode (Layout.isContent_of_mem_codeLines hl).single (readable line hl) depth
  · intro other other_mem same
    exact List.inj_on_of_nodup_map (nodup_line_codes_run nonneg source) other_mem mem_codes
      (Option.some.inj same).symm

/-- A point before a number, a comment sign in a string and a comment behind it. -/
theorem Program.tells_of_outline_string :
    ∃ p, parse .standard "a.5\"$\"$c\n\tb".toList = .ok p ∧
      p.tree.outline = .ok [⟨"a . 5 \"$\"".toList, some 1, 0⟩] ∧
      ∃ code ∈ codes (Layout.run { tabWidth := TabWidth.standard.columns } "a.5\"$\"$c\n\tb".toList).tokens,
        Heading.Tells ⟨"a . 5 \"$\"".toList, some 1, 0⟩ code := by
  have parsed : parse .standard "a.5\"$\"$c\n\tb".toList = .ok ⟨none, .group .empty
      [⟨.lexeme .name, ['a'], ⟨1, 1⟩, some ⟨1, 2⟩⟩, ⟨.lexeme (.mark .dot), ['.'], ⟨1, 2⟩, some ⟨1, 3⟩⟩,
        ⟨.lexeme .number, ['5'], ⟨1, 3⟩, some ⟨1, 4⟩⟩, ⟨.lexeme .string, "\"$\"".toList, ⟨1, 4⟩, some ⟨1, 7⟩⟩]
      ⟨2, 1⟩ (.line .empty [⟨.lexeme .name, ['b'], ⟨2, 5⟩, some ⟨2, 6⟩⟩])⟩ := by decide +kernel
  obtain ⟨headings, outlined, tells⟩ := Program.tells_of_outline parsed
  obtain rfl : headings = [⟨"a . 5 \"$\"".toList, some 1, 0⟩] := Except.ok.inj (outlined.symm.trans rfl)
  obtain ⟨code, mem, told, -⟩ := tells _ List.mem_cons_self
  exact ⟨_, parsed, outlined, code, mem, told⟩

end Offside
