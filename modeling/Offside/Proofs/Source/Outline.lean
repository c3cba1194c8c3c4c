import Offside.Proofs.Layout.Extent
import Offside.Proofs.Layout.LineEnds
import Offside.Proofs.Tree.Headings
import Offside.Source.Model

/-!
# Outlines and ledgers

The outline of a source is made from its tree, and its ledger of scopes is made when it is laid out; both tell
of the same blocks in the same order. Only the scope that an indented first line opens has no heading, since no
line stands above it.

## The model

`Outline.Corresponds` says how a heading and a scope belong together among the tokens of a source, without
mentioning trees, and `Outline.Matches` that all headings and scopes of a source do. This is kept from line to
line: a `Scan` that goes through the items of the code lines makes a heading exactly where a scope is entered
below a line (`Reached.exists_scanned`). Items are made from the layout with the ends of lines, and scopes are
counted in the layout without; the two are gone through side by side, and pass the same states
(`Turns.of_tabWidth`).
-/

namespace Offside

open Layout (Token CodeLine Emission Options Scope Turns Reached codes countKind depth classify)

/-- What the content of a code line is called within so many scopes. -/
def Heading.ofCode (c : Token) (depth : Nat) : Heading :=
  ⟨[' '].intercalate ((Lexeme.lex c.payload).lexemes.map Lexeme.text), some c.line, depth⟩

namespace Outline

/-- The heading and the scope belong to one block, the one that is opened by the token `opening` after `n`
others: the scope is that of the code line `next` right after this token, the heading is made of the last code
line before it, and so is the category of the scope. -/
inductive Corresponds (tokens : List Token) (n : Nat) : Heading → Scope → Prop
  | intro {before after : List Token} {opening next header : Token} {d : Nat}
      (split : tokens = before ++ opening :: next :: after) (opens : opening.kind = .indent)
      (nth : countKind .indent before = n) (code : next.kind = .code)
      (last : (codes before).getLast? = some header) (deep : depth before = d) :
      Corresponds tokens n (.ofCode header d) ⟨next.column, next.line, classify header.payload⟩

/-- The headings belong one by one to the scopes, in order, when some scopes at the beginning are skipped. -/
structure Matches (tokens : List Token) (scopes : List Scope) (skipped : Nat)
    (headings : List Heading) : Prop where
  length_eq : headings.length + skipped = scopes.length
  entry : ∀ (k : Nat) (heading : Heading), headings[k]? = some heading →
    ∃ scope, scopes[k + skipped]? = some scope ∧ Corresponds tokens (k + skipped) heading scope

theorem Corresponds.append {tokens : List Token} {n : Nat} {heading : Heading} {scope : Scope}
    (h : Corresponds tokens n heading scope) (more : List Token) :
    Corresponds (tokens ++ more) n heading scope := by
  cases h with
  | intro split opens nth code last deep => exact .intro (by simp [split]; rfl) opens nth code last deep

namespace Matches

variable {tokens : List Token} {scopes : List Scope} {skipped : Nat} {headings : List Heading}

theorem append (h : Matches tokens scopes skipped headings) (more : List Token) :
    Matches (tokens ++ more) scopes skipped headings := by
  refine ⟨h.length_eq, fun k heading hk => ?_⟩
  obtain ⟨scope, hs, corresponds⟩ := h.entry k heading hk
  exact ⟨scope, hs, corresponds.append more⟩

theorem enter {opening next header : Token} {d : Nat} (h : Matches tokens scopes skipped headings)
    (nth : countKind .indent tokens = scopes.length) (opens : opening.kind = .indent)
    (code : next.kind = .code) (last : (codes tokens).getLast? = some header) (deep : depth tokens = d)
    (more : List Token) :
    Matches (tokens ++ opening :: next :: more)
      (scopes ++ [⟨next.column, next.line, classify header.payload⟩]) skipped
      (headings ++ [.ofCode header d]) := by
  have length_eq := h.length_eq
  refine ⟨?_, fun k heading hk => ?_⟩
  · rw [List.length_append, List.length_append, List.length_singleton, List.length_singleton]
    omega
  · have bound : k < headings.length + 1 := by simpa using (List.getElem?_eq_some_iff.1 hk).1
    rcases Nat.lt_succ_iff_lt_or_eq.1 bound with lt | rfl
    · rw [List.getElem?_append_left lt] at hk
      obtain ⟨scope, hs, corresponds⟩ := h.entry k heading hk
      exact ⟨scope, by rw [List.getElem?_append_left (by omega), hs], corresponds.append _⟩
    · rw [List.getElem?_concat_length] at hk
      obtain rfl := Option.some.inj hk
      refine ⟨_, ?_, .intro rfl opens (by omega) code last deep⟩
      rw [length_eq, List.getElem?_concat_length]

end Matches

/-! ### Going through a source -/

/-- The scopes that no line stands above: one if the first line is indented. -/
def skipped (tab : Int) (lines : List CodeLine) : Nat := if lines.head?.any (0 < ·.width tab) then 1 else 0

/-- What going through the items of some code lines has found. -/
structure Scanned (o : Options) (lines : List CodeLine) (out : Emission) (s : Layout.State) (scan : Scan) :
    Prop where
  /-- No line is half read. -/
  items : scan.items = []
  /-- A suite is open for each level above column 0. -/
  depth_eq : scan.depth + 1 = s.levels.length
  /-- The last line is the last that has ended. -/
  header : scan.header = (lines.getLast?.map fun line => (line.token o).items).getD []
  found : Matches out.tokens out.scopes (skipped o.tabWidth lines) scan.headings

end Outline

namespace Scan

/-- Goes through the items of tokens. -/
def throughTokens (s : Scan) (tokens : List Token) : Scan := s.through ((Item.ofTokens tokens).map Item.trace)

@[simp] theorem throughTokens_nil (s : Scan) : s.throughTokens [] = s := rfl

@[simp] theorem throughTokens_append (s : Scan) (first second : List Token) :
    s.throughTokens (first ++ second) = (s.throughTokens first).throughTokens second := by
  simp [throughTokens]

@[simp] theorem throughTokens_indent (s : Scan) (number : Int) :
    s.throughTokens [.indent number] =
      { s with headings := s.headings ++ (Heading.ofItems? s.depth s.header).toList, depth := s.depth + 1 } :=
  rfl

@[simp] theorem throughTokens_dedents (s : Scan) (n : Nat) (number : Int) :
    s.throughTokens (List.replicate n (.dedent number)) = { s with depth := s.depth - n } := by
  induction n generalizing s with
  | zero => rfl
  | succ n ih =>
    have first : s.throughTokens [.dedent number] = { s with depth := s.depth - 1 } := rfl
    have less : s.depth - 1 - n = s.depth - (n + 1) := by omega
    rw [List.replicate_succ, ← List.singleton_append, throughTokens_append, first, ih, less]

/-- The items of a line are kept until another line ends. -/
theorem throughTokens_line {o : Options} (newlines : o.newlines = true) {s : Scan} (empty : s.items = [])
    (line : CodeLine) :
    s.throughTokens (line.tokens o) = { s with header := (line.token o).items, items := [] } := by
  rw [throughTokens, line.map_trace_tokens newlines, through_append, through_lexemes, empty]
  rfl

theorem headings_throughTokens_closing (s : Scan) (number : Int) (levels : List Int) :
    (s.throughTokens (Layout.closing number levels)).headings = s.headings := by
  rw [Layout.closing, throughTokens_append, throughTokens_dedents]
  rfl

end Scan

/-- The name of a readable line is made of its lexemes. -/
theorem Heading.ofItems?_token {line : CodeLine} (readable : IsReadable line.content) (o : Options)
    (depth : Nat) :
    Heading.ofItems? depth (line.token o).items = some (.ofCode (line.token o) depth) := by
  obtain ⟨l, rest, lexemes⟩ := List.exists_cons_of_ne_nil readable.has_lexeme
  simp [ofItems?, ofWords?, ofCode, Token.items, CodeLine.token, Token.code, lexemes, Outline.joinTexts,
    Item.ofLexeme, Item.word, Function.comp_def]

variable {o : Options} {s : Layout.State} {line : CodeLine} {turn : Emission} {levels : List Int}
  {lines : List CodeLine} {out : Emission} {scan : Scan}

namespace Outline

theorem skipped_append_singleton {tab : Int} {lines : List CodeLine} (h : lines ≠ []) (line : CodeLine) :
    skipped tab (lines ++ [line]) = skipped tab lines := by
  obtain ⟨first, rest, rfl⟩ := List.exists_cons_of_ne_nil h
  rfl

/-- Nothing is found in a first line that is indented. -/
theorem Scanned.found_first (h : Scanned o [] {} {} scan) (right : 0 < line.width o.tabWidth) (scope : Scope) :
    Matches (.indent line.number :: line.tokens o) [scope] (skipped o.tabWidth [line])
      (scan.throughTokens [.indent line.number]).headings := by
  have none : scan.headings = [] := List.length_eq_zero_iff.1 h.found.length_eq
  have header : scan.header = [] := h.header
  have nothing : (scan.throughTokens [.indent line.number]).headings = [] := by
    simp [none, header, Heading.ofItems?, Heading.ofWords?]
  rw [nothing]
  exact ⟨by simp [skipped, right], by simp⟩

/-- The heading of the scope that a line enters is made of the line before it. -/
theorem Scanned.found_enter {last : CodeLine} (h : Scanned o (lines ++ [last]) out s scan)
    (before : Reached o (lines ++ [last]) out s) (readable : IsReadable last.content) :
    Matches (out.tokens ++ .indent line.number :: line.tokens o)
      (out.scopes ++ [⟨line.width o.tabWidth, line.number, classify (s.header.getD line.content)⟩])
      (skipped o.tabWidth (lines ++ [last])) (scan.throughTokens [.indent line.number]).headings := by
  have header : scan.header = (last.token o).items := by
    rw [h.header]
    simp
  have above : (codes out.tokens).getLast? = some (last.token o) := by
    rw [before.codes_eq]
    simp
  have depth_eq : depth out.tokens = scan.depth := by
    have := before.depth_eq
    have := h.depth_eq
    omega
  have category : s.header.getD line.content = (last.token o).payload := by
    rw [before.header_eq, Layout.lastCode?, above]
    rfl
  obtain ⟨ends, tokens_eq⟩ : ∃ ends, line.tokens o = line.token o :: ends := ⟨_, rfl⟩
  have heading := Heading.ofItems?_token readable o scan.depth
  rw [Scan.throughTokens_indent, header, heading, category, tokens_eq]
  exact h.found.enter before.accounts.length_eq.symm rfl rfl above depth_eq ends

/-- A turn and the line after it add what there is to find. -/
theorem Scanned.found_next (h : Scanned o lines out s scan) (before : Reached o lines out s)
    (t : Turns o s line turn levels) (readable : ∀ l ∈ lines, IsReadable l.content) :
    Matches (out ++ line.emission o turn).tokens (out ++ line.emission o turn).scopes
      (skipped o.tabWidth (lines ++ [line])) (scan.throughTokens turn.tokens).headings := by
  cases t with
  | enter right =>
    rcases lines.eq_nil_or_concat with rfl | ⟨first, last, rfl⟩
    · obtain ⟨rfl, rfl⟩ := before.unique .start
      exact h.found_first right _
    · rw [List.concat_eq_append] at *
      rw [skipped_append_singleton (by simp) line]
      exact h.found_enter before (readable last (by simp))
  | leave left split right within =>
    have same : skipped o.tabWidth (lines ++ [line]) = skipped o.tabWidth lines := by
      rcases lines.eq_nil_or_concat with rfl | ⟨first, last, rfl⟩
      · obtain ⟨rfl, rfl⟩ := before.unique .start
        have left : line.width o.tabWidth ≤ 0 := left
        simp [skipped, Int.not_lt.2 left]
      · exact skipped_append_singleton (by simp) line
    rw [same]
    simpa using h.found.append _

theorem Scanned.next (h : Scanned o lines out s scan) (before : Reached o lines out s)
    (t : Turns o s line turn levels) (readable : ∀ l ∈ lines, IsReadable l.content) :
    Scanned o (lines ++ [line]) (out ++ line.emission o turn) (line.state o levels)
      { scan.throughTokens turn.tokens with header := (line.token o).items, items := [] } := by
  refine ⟨rfl, ?_, by simp, h.found_next before t readable⟩
  have depth_eq := h.depth_eq
  cases t with
  | enter right =>
    simp
    omega
  | leave left split right within =>
    rw [split] at depth_eq
    simp at depth_eq ⊢
    omega

end Outline

/-- A turn leaves no line half read. -/
theorem Scan.items_throughTokens (scan : Scan) (t : Turns o s line turn levels) :
    (scan.throughTokens turn.tokens).items = scan.items := by
  cases t with
  | enter _ => rfl
  | leave _ _ _ _ => rw [throughTokens_dedents]

/-- **Going through the items of readable lines makes a heading for each scope that is entered below a
line.** -/
theorem Layout.Reached.exists_scanned (h : Reached o lines out s) (o' : Options)
    (tab : o'.tabWidth = o.tabWidth) (newlines : o'.newlines = true)
    (readable : ∀ line ∈ lines, IsReadable line.content) :
    ∃ out', Reached o' lines out' s ∧ Outline.Scanned o lines out s (Scan.throughTokens {} out'.tokens) := by
  induction h with
  | start => exact ⟨{}, .start, rfl, rfl, rfl, rfl, by simp⟩
  | @next lines out s line turn levels before t ih =>
    have readable' : ∀ l ∈ lines, IsReadable l.content := fun l hl => readable l (List.mem_append_left _ hl)
    obtain ⟨out', before', scanned⟩ := ih readable'
    refine ⟨_, line.state_of_tabWidth tab levels ▸ before'.next (t.of_tabWidth tab), ?_⟩
    have empty : ((Scan.throughTokens {} out'.tokens).throughTokens turn.tokens).items = [] := by
      rw [Scan.items_throughTokens _ t, scanned.items]
    rw [Emission.tokens_append, CodeLine.tokens_emission, Scan.throughTokens_append,
      Scan.throughTokens_append, Scan.throughTokens_line newlines empty, line.token_of_tabWidth tab]
    exact scanned.next before t readable'

/-- The headings of a program are those of the scopes of its source. -/
theorem Outline.matches_of_parse {tab : TabWidth} {source : List Char} {p : Program} (h : parse tab source = .ok p) :
    Matches (Layout.run { tabWidth := tab.columns } source).tokens
      (Layout.run { tabWidth := tab.columns } source).scopes
      (skipped tab.columns (Layout.codeLines source)) p.headings := by
  have readable := readable_of_parse h
  obtain ⟨out, s, reached, whole⟩ := Layout.exists_run (o := { tabWidth := tab.columns })
    tab.nonneg_lineOptions source
  obtain ⟨out', reached', scanned⟩ := reached.exists_scanned tab.lineOptions rfl rfl readable
  obtain ⟨-, -, traces_eq⟩ := Program.ofStretch_eq_ok_iff.1 h
  have headings_eq : p.headings = (Scan.throughTokens {} out'.tokens).headings := by
    rw [← p.headings_through, traces_eq, Stretch.ofSource_eq tab fun l hl => (readable l hl).lexes,
      reached'.run_eq]
    exact (congrArg Scan.headings (Scan.throughTokens_append ..)).trans
      (Scan.headings_throughTokens_closing ..)
  rw [headings_eq, whole]
  simpa using scanned.found.append (Layout.closing ((Text.lines source).length + 1) s.levels)

namespace Model

variable {files : Source.Files} {file? text? : Option (List Char)} {tab : Setting} {m : Model} {p : Program}

theorem result_eq_of_load {origin : Origin} {width : TabWidth} (h : load files width origin = .ok m) :
    m.result = Layout.run { tabWidth := m.tab.columns } m.source := by
  unfold load at h
  cases source : sourceOf files origin with
  | error e => simp [source, bind, Except.bind] at h
  | ok text =>
    cases worded : (Layout.run { tabWidth := width.columns } text).worded with
    | error e => simp [source, worded, bind, Except.bind, Except.mapError] at h
    | ok result =>
      obtain ⟨rfl, -⟩ := Layout.Result.worded_eq_ok_iff.1 worded
      simp only [source, worded, bind, Except.bind, Except.mapError, pure, Except.pure, Except.ok.injEq] at h
      rw [← h]

theorem result_eq_of_make (h : make files file? text? tab = .ok m) :
    m.result = Layout.run { tabWidth := m.tab.columns } m.source := by
  unfold make at h
  cases origin : originOf file? text? with
  | error e => simp [origin, bind, Except.bind] at h
  | ok origin' =>
    cases width : TabWidth.ofSetting tab with
    | error e => simp [origin, width, bind, Except.bind, Except.mapError] at h
    | ok width' =>
      have loaded : load files width' origin' = .ok m := by
        simpa [origin, width, bind, Except.bind, Except.mapError] using h
      exact result_eq_of_load loaded

theorem parse_of_program (h : m.program = .ok p) : parse m.tab m.source = .ok p := by
  unfold program at h
  cases told : Program.ofSource m.tab m.source with
  | error e => cases e <;> simp [told, Except.mapError] at h
  | ok q =>
    obtain rfl : q = p := by simpa [told, Except.mapError] using h
    exact Program.parse_of_ofSource told

/-- **The outline of a source and its ledger tell of the same blocks**: whenever there is a tree there is an
outline, and its headings belong one by one to the scopes, after the scope that an indented first line
opens. -/
theorem outline_matches_ledger (made : make files file? text? tab = .ok m) (spelled : m.program = .ok p) :
    ∃ headings, m.outline = .ok headings ∧
      Outline.Matches m.result.tokens m.ledger.entries
        (if Layout.startsIndented m.tab.columns m.source then 1 else 0) headings := by
  have parsed := parse_of_program spelled
  obtain ⟨-, proper, -⟩ := Program.ofStretch_eq_ok_iff.1 parsed
  refine ⟨p.headings, ?_, ?_⟩
  · rw [outline, spelled]
    simp [bind, Except.bind, proper.outline_eq, Except.mapError]
  · rw [ledger, result_eq_of_make made]
    exact Outline.matches_of_parse parsed

/-- The outline of a source whose first line is indented: the second of its three scopes is that of the first
heading. -/
theorem outline_matches_ledger_indented :
    ∃ m p, make (fun _ => .error .missing) none (some "  a\n\tb 1\n c\n\td".toList) (.integer 4) = .ok m ∧
      m.program = .ok p ∧ ∃ headings, m.outline = .ok headings ∧
        Outline.Matches m.result.tokens m.ledger.entries
          (if Layout.startsIndented m.tab.columns m.source then 1 else 0) headings := by
  have made : make (fun _ => .error .missing) none (some "  a\n\tb 1\n c\n\td".toList) (.integer 4) =
      .ok ⟨.text "  a\n\tb 1\n c\n\td".toList, .standard, "  a\n\tb 1\n c\n\td".toList,
        Layout.run { tabWidth := 4 } "  a\n\tb 1\n c\n\td".toList⟩ := by decide +kernel
  have spelled : program ⟨.text "  a\n\tb 1\n c\n\td".toList, .standard, "  a\n\tb 1\n c\n\td".toList,
        Layout.run { tabWidth := 4 } "  a\n\tb 1\n c\n\td".toList⟩ =
      .ok ⟨some (⟨1, 1⟩, .group .empty [⟨.lexeme .name, ['a'], ⟨1, 3⟩, some ⟨1, 4⟩⟩] ⟨2, 1⟩
          (.line .empty [⟨.lexeme .name, ['b'], ⟨2, 5⟩, some ⟨2, 6⟩⟩,
            ⟨.lexeme .number, ['1'], ⟨2, 7⟩, some ⟨2, 8⟩⟩])),
        .group .empty [⟨.lexeme .name, ['c'], ⟨3, 2⟩, some ⟨3, 3⟩⟩] ⟨4, 1⟩
          (.line .empty [⟨.lexeme .name, ['d'], ⟨4, 5⟩, some ⟨4, 6⟩⟩])⟩ := by decide +kernel
  exact ⟨_, _, made, spelled, outline_matches_ledger made spelled⟩

end Model

end Offside
