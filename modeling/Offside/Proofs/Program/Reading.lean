import Offside.Program.Reader
import Offside.Proofs.Layout.Content
import Offside.Proofs.Layout.Turn
import Offside.Proofs.Lexeme.Reach
import Offside.Proofs.Program.Items

/-!
# Reading what is laid out

However a source is indented, its layout has the structure of a program; what keeps it from being one is
only ever the text of a line.

## The model

A reader keeps step with the levels: between two code lines it has a suite open for each level above
column 0 (`Reader.Fits`). Then it takes the turn of the next line (`Reader.Fits.takes_turn`) and, if the line is
readable, the line (`Reader.feedAll_line`). For a scope is only opened right after a line that owns none, or
before all lines, and only closed after a line. So a program is read to its end, or up to the first line
that cannot be cut into lexemes or has none (`LineFault`).
-/

namespace Offside

open Layout (Token CodeLine Emission Options Turns Reached codes)

/-- The content of a code line can be cut into lexemes, and there is one. -/
structure IsReadable (text : List Char) : Prop where
  lexes : (Lexeme.lex text).stop? = none
  has_lexeme : (Lexeme.lex text).lexemes ≠ []

theorem IsReadable.of_lex_eq {text text' : List Char} (h : IsReadable text)
    (same : Lexeme.lex text' = Lexeme.lex text) : IsReadable text' :=
  ⟨same ▸ h.lexes, same ▸ h.has_lexeme⟩

/-- What is wrong with a code line. -/
inductive LineFault (c : Token) : ParseError → Prop
  /-- Cutting the line into lexemes comes to a character that none begins with. -/
  | character {q : Nat} {ch : Char} (stops : Lexeme.StopsAt c.payload q ch) :
      LineFault c ⟨.unexpectedCharacter ch, some c.line, some (c.column + q)⟩
  /-- There is no lexeme before the end of the line. -/
  | nothing (lexes : (Lexeme.lex c.payload).stop? = none)
      (no_lexeme : (Lexeme.lex c.payload).lexemes = []) :
      LineFault c
        ⟨.unexpectedItem (.ofToken .newline (.newline c.line (c.column + c.payload.length))),
          some c.line, some (c.column + c.payload.length)⟩

/-- The error is told in these words, at this place. -/
structure ParseError.Tells (e : ParseError) (line column : Int) (text : String) : Prop where
  line_eq : e.line? = some line
  column_eq : e.column? = some column
  detail_eq : e.detail = text
  message_eq : e.message = "Parse error at line " ++ toString line ++ ":" ++ toString column ++ " - " ++ text

/-- The end of a line is shown by its name and its text, and with a column counted from one. -/
theorem ParseError.Cause.message_newline (line column : Int) :
    (Cause.unexpectedItem (.ofToken .newline (.newline line column))).message =
      "Unexpected token Token('_NL', '\\n') at line " ++ toString line ++ ", column " ++ toString (column + 1) ++
        "." := by
  have name : Text.quote "_NL".toList = "'_NL'" := by decide +kernel
  have text : Text.quote ['\n'] = "'\\n'" := by decide +kernel
  change "Unexpected token Token(" ++ Text.quote "_NL".toList ++ ", " ++ Text.quote ['\n'] ++ ") at line " ++
    toString line ++ ", column " ++ toString (column + 1) ++ "." = _
  rw [name, text]
  rfl

/-- A fault names the character that no lexeme begins with, or the end of the line, and says where it stands. -/
theorem LineFault.tells {c : Token} {e : ParseError} (fault : LineFault c e) :
    (∃ (q : Nat) (ch : Char), Lexeme.StopsAt c.payload q ch ∧
      e.Tells c.line (c.column + q) ("Unexpected character " ++ Text.quote [ch])) ∨
    ((Lexeme.lex c.payload).stop? = none ∧ (Lexeme.lex c.payload).lexemes = [] ∧
      e.Tells c.line (c.column + c.payload.length)
        ("Unexpected token Token('_NL', '\\n') at line " ++ toString c.line ++ ", column " ++
          toString (c.column + c.payload.length + 1) ++ ".")) := by
  cases fault with
  | @character q ch stops => exact .inl ⟨q, ch, stops, rfl, rfl, rfl, rfl⟩
  | nothing lexes no_lexeme =>
    have words := ParseError.Cause.message_newline c.line (c.column + c.payload.length)
    exact .inr ⟨lexes, no_lexeme, rfl, rfl, words, congrArg (_ ++ ·) words⟩

/-- The token for the end of a code line. -/
def Layout.CodeLine.endToken (o : Options) (line : CodeLine) : Token :=
  .newline line.number (line.width o.tabWidth + line.content.length)

/-- The item for the end of a code line. -/
def Layout.CodeLine.endItem (o : Options) (line : CodeLine) : Item := .ofToken .newline (line.endToken o)

theorem Layout.CodeLine.tokens_eq {o : Options} (newlines : o.newlines = true) (line : CodeLine) :
    line.tokens o = [line.token o, line.endToken o] := by
  simp [CodeLine.tokens, newlines, CodeLine.token, CodeLine.endToken]

/-! ### Readers and levels -/

/-- Only the outermost of the suites that have begun may be one that no line owns. -/
def Frame.Rooted : List Frame → Prop
  | [] => True
  | .leading _ :: outer => outer = []
  | .suite .. :: outer => Rooted outer

/-- A reader between two code lines, within the levels of a state. -/
structure Reader.Fits (r : Reader) (s : Layout.State) : Prop where
  items : r.items = []
  frames : r.frames.length + 1 = s.levels.length
  rooted : Frame.Rooted r.frames
  /-- Nothing has been read, or a line was read last. -/
  block : r = {} ∨ ∃ before items, r.block = .line before items

theorem Reader.fits_start : Reader.Fits {} {} := ⟨rfl, rfl, trivial, .inl rfl⟩

namespace Reader

theorem feedAll_cons {r r' : Reader} {item : Item} (h : r.feed? item = some r') (rest : List Item) :
    r.feedAll (item :: rest) = r'.feedAll rest := by
  rw [feedAll, h]

theorem feedAll_append_of_ok {r r' : Reader} {first : List Item} (h : r.feedAll first = .ok r')
    (second : List Item) : r.feedAll (first ++ second) = r'.feedAll second := by
  rw [feedAll_append, h]
  rfl

theorem exists_closeSuite {r : Reader} {f : Frame} {outer : List Frame} (empty : r.items = [])
    (frames : r.frames = f :: outer) (rooted : Frame.Rooted r.frames) (block : r.block ≠ .empty) :
    ∃ r', r.closeSuite? = some r' ∧ r'.items = [] ∧ r'.frames = outer ∧ Frame.Rooted outer ∧
      (outer ≠ [] → r'.block ≠ .empty) := by
  rw [frames] at rooted
  cases f with
  | leading place =>
    obtain rfl : outer = [] := rooted
    refine ⟨{ r with frames := [], leading? := some (place, r.block), block := .empty }, ?_, empty, rfl,
      trivial, fun h => absurd rfl h⟩
    cases hb : r.block <;> simp_all [closeSuite?]
  | suite before header place =>
    refine ⟨{ r with frames := outer, block := .group before header place r.block }, ?_, empty, rfl,
      rooted, fun _ => by simp⟩
    cases hb : r.block <;> simp_all [closeSuite?]

theorem feedAll_dedents {n : Nat} {r : Reader} (line : Int) (empty : r.items = [])
    (rooted : Frame.Rooted r.frames) (enough : n ≤ r.frames.length)
    (block : r.frames ≠ [] → r.block ≠ .empty) :
    ∃ r', r.feedAll (Item.ofTokens (List.replicate n (.dedent line))) = .ok r' ∧ r'.items = [] ∧
      r'.frames = r.frames.drop n ∧ Frame.Rooted r'.frames := by
  induction n generalizing r with
  | zero => exact ⟨r, rfl, empty, rfl, rooted⟩
  | succ n ih =>
    obtain ⟨f, outer, frames⟩ : ∃ f outer, r.frames = f :: outer :=
      List.exists_cons_of_length_pos (by omega)
    obtain ⟨r₁, closed, empty₁, frames₁, rooted₁, block₁⟩ :=
      exists_closeSuite empty frames rooted (block (by simp [frames]))
    rw [frames, List.length_cons] at enough
    obtain ⟨r', fed, empty', frames', rooted'⟩ :=
      ih empty₁ (frames₁ ▸ rooted₁) (by rw [frames₁]; omega) (by rw [frames₁]; exact block₁)
    refine ⟨r', ?_, empty', by rw [frames', frames₁, frames, List.drop_succ_cons], rooted'⟩
    have taken : r.feed? (.ofToken .dedent (.dedent line)) = some r₁ := by
      simp [feed?, Item.ofToken, empty, closed]
    rw [List.replicate_succ, Item.ofTokens_cons]
    exact (feedAll_cons taken _).trans fed

/-- Lexemes are gathered until their line ends. -/
theorem feedAll_lexemes {items : List Item} (h : ∀ item ∈ items, ∃ t, item.symbol = .lexeme t)
    (r : Reader) : r.feedAll items = .ok { r with items := r.items ++ items } := by
  induction items generalizing r with
  | nil => simp [feedAll]
  | cons item rest ih =>
    obtain ⟨t, symbol⟩ := h item List.mem_cons_self
    have taken : r.feed? item = some { r with items := r.items ++ [item] } := by simp [feed?, symbol]
    rw [feedAll_cons taken, ih fun i hi => h i (List.mem_cons_of_mem _ hi)]
    simp

theorem feedAll_code (r : Reader) (line : CodeLine) (o : Options) :
    r.feedAll (line.token o).items = .ok { r with items := r.items ++ (line.token o).items } :=
  feedAll_lexemes (fun _ hi => Token.exists_lexeme_of_mem_items rfl hi) r

theorem Fits.exists_openSuite {r : Reader} {s : Layout.State} (h : r.Fits s) (place : Place) :
    ∃ r', r.openSuite? place = some r' ∧ r'.items = [] ∧
      r'.frames.length = r.frames.length + 1 ∧ Frame.Rooted r'.frames := by
  rcases h.block with rfl | ⟨before, header, block⟩
  · exact ⟨_, rfl, rfl, rfl, rfl⟩
  · exact ⟨{ r with frames := .suite before header place :: r.frames, block := .empty },
      by simp only [openSuite?, block], h.items, rfl, h.rooted⟩

variable {o : Options} {s : Layout.State} {line : CodeLine} {turn : Emission} {levels : List Int}

theorem Fits.takes_turn {r : Reader} (h : r.Fits s) (t : Turns o s line turn levels) :
    ∃ r', r.feedAll (Item.ofTokens turn.tokens) = .ok r' ∧ r'.items = [] ∧
      r'.frames.length + 1 = levels.length ∧ Frame.Rooted r'.frames := by
  cases t with
  | enter _ =>
    obtain ⟨r', opened, empty, length, rooted⟩ := h.exists_openSuite ⟨line.number, 1⟩
    refine ⟨r', ?_, empty, by rw [length, h.frames, List.length_cons], rooted⟩
    have taken : r.feed? (.ofToken .indent (.indent line.number)) = some r' := by
      simp [feed?, Item.ofToken, Token.indent, h.items, opened]
    exact feedAll_cons taken []
  | @leave closed outer level _ split _ _ =>
    have count := h.frames
    rw [split, List.length_append, List.length_cons] at count
    have block : r.frames ≠ [] → r.block ≠ .empty := by
      rcases h.block with rfl | ⟨before, header, block⟩
      · exact fun none => absurd rfl none
      · simp [block]
    obtain ⟨r', fed, empty, frames, rooted⟩ :=
      feedAll_dedents (n := closed.length) line.number h.items h.rooted (by omega) block
    refine ⟨r', fed, empty, ?_, rooted⟩
    rw [frames, List.length_drop, List.length_cons]
    omega

theorem feedAll_line {r : Reader} (newlines : o.newlines = true) (empty : r.items = [])
    (length : r.frames.length + 1 = levels.length) (rooted : Frame.Rooted r.frames)
    (readable : IsReadable line.content) :
    ∃ r', r.feedAll (Item.ofTokens (line.tokens o)) = .ok r' ∧ r'.Fits (line.state o levels) := by
  have split : Item.ofTokens (line.tokens o) = (line.token o).items ++ [line.endItem o] := by
    rw [line.tokens_eq newlines]
    rfl
  have some_item : (line.token o).items.isEmpty = false := by
    simpa [Token.items, CodeLine.token, Token.code] using readable.has_lexeme
  refine ⟨{ r with block := .line r.block (line.token o).items, items := [] }, ?_, rfl, length, rooted,
    .inr ⟨_, _, rfl⟩⟩
  rw [split, feedAll_append_of_ok (feedAll_code r line o), empty, List.nil_append]
  exact feedAll_cons (by simp only [feed?, CodeLine.endItem, Item.ofToken, some_item]; rfl) []

end Reader

/-! ### Reading a whole source -/

variable {o : Options} {s : Layout.State} {lines : List CodeLine} {out : Emission}

/-- Readable lines, however they are indented, leave a reader that fits. -/
theorem exists_reader (h : Reached o lines out s) (newlines : o.newlines = true)
    (readable : ∀ line ∈ lines, IsReadable line.content) :
    ∃ r, Reader.feedAll {} (Item.ofTokens out.tokens) = .ok r ∧ r.Fits s := by
  induction h with
  | start => exact ⟨{}, rfl, Reader.fits_start⟩
  | @next _ _ _ line _ _ _ t ih =>
    obtain ⟨r, fed, fits⟩ := ih fun l hl => readable l (List.mem_append_left _ hl)
    obtain ⟨r₁, turned, empty, length, rooted⟩ := fits.takes_turn t
    obtain ⟨r₂, taken, fits₂⟩ :=
      Reader.feedAll_line newlines empty length rooted (readable line (by simp))
    refine ⟨r₂, ?_, fits₂⟩
    rw [Layout.Emission.tokens_append, CodeLine.tokens_emission, Item.ofTokens_append,
      Item.ofTokens_append, Reader.feedAll_append_of_ok fed, Reader.feedAll_append_of_ok turned, taken]

/-- Tokens that are reached do not stop a stretch, if all lines can be cut into lexemes. -/
theorem passes_of_reached (h : Reached o lines out s)
    (lexes : ∀ line ∈ lines, (Lexeme.lex line.content).stop? = none) : ∀ t ∈ out.tokens, t.Passes := by
  refine fun t ht => ⟨h.kind_ne_endOfFile t ht, fun code => ?_⟩
  have mem : t ∈ codes out.tokens := List.mem_filter.2 ⟨ht, by simp [code]⟩
  rw [h.codes_eq] at mem
  obtain ⟨line, hl, rfl⟩ := List.mem_map.1 mem
  exact lexes line hl

theorem passes_of_turns {line : CodeLine} {turn : Emission} {levels : List Int}
    (t : Turns o s line turn levels) : ∀ u ∈ turn.tokens, u.Passes := by
  intro u hu
  rcases t.kind_of_mem hu with kind | kind
  · exact ⟨by simp [kind], by simp [kind]⟩
  · exact ⟨by simp [kind], by simp [kind]⟩

/-- A program is what a stretch without a fault leaves in a reader that is done. -/
theorem Program.ofStretch_of_ok {stretch : Stretch} {r : Reader}
    (fed : Reader.feedAll {} stretch.items = .ok r) (failure : stretch.failure? = none)
    (frames : r.frames = []) (items : r.items = []) :
    Program.ofStretch stretch = .ok ⟨r.leading?, r.block⟩ := by
  simp [ofStretch, fed, failure, Reader.finish, frames, items, bind, Except.bind]

/-- Closing what is open at the end of a source goes through, and there the stretch ends. -/
theorem Stretch.ofTokens_closing (line : Int) (levels : List Int) :
    ofTokens (Layout.closing line levels) = { items := Item.ofTokens (Layout.closing line levels) } := by
  have pass : ∀ t ∈ List.replicate (levels.length - 1) (Token.dedent line), t.Passes := by
    intro t ht
    rw [List.eq_of_mem_replicate ht]
    exact ⟨by simp [Token.dedent], by simp [Token.dedent]⟩
  rw [Layout.closing, ofTokens_append pass, Item.ofTokens_append]
  simp [ofTokens, Token.endOfFile, Token.items, after]

theorem TabWidth.nonneg_lineOptions (tab : TabWidth) : 0 ≤ tab.lineOptions.tabWidth :=
  Int.natCast_nonneg tab.columns

/-- A stretch that is taken up to a line that cannot be cut gives the fault of that line. -/
theorem Program.ofStretch_of_failure {stretch : Stretch} {r : Reader} {e : ParseError}
    (fed : Reader.feedAll {} stretch.items = .ok r) (failure : stretch.failure? = some e) :
    Program.ofStretch stretch = .error e := by
  simp [ofStretch, fed, failure, bind, Except.bind]

/-- An item out of place comes before any fault after it. -/
theorem Program.ofStretch_of_error {stretch : Stretch} {e : ParseError}
    (fed : Reader.feedAll {} stretch.items = .error e) : Program.ofStretch stretch = .error e := by
  simp [ofStretch, fed, bind, Except.bind]

/-- The error for the end of a line is told in the column after its content. -/
theorem ParseError.ofItem_endItem {o : Options} {line : CodeLine} (number : 0 < line.number)
    (width : 0 ≤ line.width o.tabWidth) :
    ParseError.ofItem (line.endItem o) =
      ⟨.unexpectedItem (line.endItem o), some line.number,
        some (line.width o.tabWidth + line.content.length)⟩ := by
  have column : 0 < line.width o.tabWidth + line.content.length + 1 := by omega
  simp [ofItem, CodeLine.endItem, CodeLine.endToken, Item.ofToken, Token.newline, number, column]

theorem Stretch.ofSource_eq (tab : TabWidth) {source : List Char}
    (lexes : ∀ line ∈ Layout.codeLines source, (Lexeme.lex line.content).stop? = none) :
    Stretch.ofSource tab source =
      { items := Item.ofTokens (Layout.run tab.lineOptions source).tokens } := by
  obtain ⟨out, s, reached, whole⟩ := Layout.exists_run tab.nonneg_lineOptions source
  rw [ofSource, whole, Layout.Emission.tokens_append, Item.ofTokens_append,
    ofTokens_append (passes_of_reached reached lexes), ofTokens_closing]
  rfl

/-- A source all of whose lines are readable is a program, the one that its items make. -/
theorem parse_of_readable (tab : TabWidth) {source : List Char}
    (readable : ∀ line ∈ Layout.codeLines source, IsReadable line.content) :
    ∃ r, Reader.feedAll {} (Item.ofTokens (Layout.run tab.lineOptions source).tokens) = .ok r ∧
      parse tab source = .ok ⟨r.leading?, r.block⟩ := by
  obtain ⟨out, s, reached, whole⟩ := Layout.exists_run tab.nonneg_lineOptions source
  obtain ⟨r, fed, fits⟩ := exists_reader reached rfl readable
  have count := fits.frames
  have block : r.frames ≠ [] → r.block ≠ .empty := by
    rcases fits.block with rfl | ⟨before, header, block⟩
    · exact fun none => absurd rfl none
    · simp [block]
  obtain ⟨r', closed, empty, frames, -⟩ :=
    Reader.feedAll_dedents (n := s.levels.length - 1) ((Text.lines source).length + 1) fits.items
      fits.rooted (by omega) block
  have ended : r'.frames = [] := by
    rw [frames, List.drop_eq_nil_iff]
    omega
  have nothing : Item.ofTokens [Token.endOfFile ((Text.lines source).length + 1)] = [] := rfl
  have fed' : Reader.feedAll {} (Item.ofTokens (Layout.run tab.lineOptions source).tokens) = .ok r' := by
    rw [whole, Layout.Emission.tokens_append, Layout.closing, Item.ofTokens_append, Item.ofTokens_append,
      nothing, List.append_nil, Reader.feedAll_append_of_ok fed, closed]
  refine ⟨r', fed', ?_⟩
  rw [parse, Stretch.ofSource_eq tab fun l hl => (readable l hl).lexes]
  exact Program.ofStretch_of_ok fed' rfl ended empty

/-- Up to a line before which all are readable a source is read, and then the reader is between two lines. -/
theorem exists_reader_before (tab : TabWidth) {source : List Char} {first rest : List CodeLine}
    {line : CodeLine} (split : Layout.codeLines source = first ++ line :: rest)
    (readable : ∀ l ∈ first, IsReadable l.content) :
    ∃ tokens more r, (Layout.run tab.lineOptions source).tokens =
        tokens ++ line.token tab.lineOptions :: line.endToken tab.lineOptions :: more ∧
      (∀ u ∈ tokens, u.Passes) ∧ Reader.feedAll {} (Item.ofTokens tokens) = .ok r ∧ r.items = [] := by
  obtain ⟨out, s, reached, whole⟩ := Layout.exists_run tab.nonneg_lineOptions source
  rw [split] at reached
  obtain ⟨out₁, s₁, turn, levels, out₂, before, t, rfl⟩ := reached.exists_turns
  obtain ⟨r, fed, fits⟩ := exists_reader before rfl readable
  obtain ⟨r₁, turned, empty, -, -⟩ := fits.takes_turn t
  refine ⟨out₁.tokens ++ turn.tokens, out₂.tokens ++ Layout.closing ((Text.lines source).length + 1) s.levels,
    r₁, ?_, ?_, ?_, empty⟩
  · rw [whole]
    simp [line.tokens_eq (o := tab.lineOptions) rfl]
  · intro u hu
    rcases List.mem_append.1 hu with hu | hu
    · exact passes_of_reached before (fun l hl => (readable l hl).lexes) u hu
    · exact passes_of_turns t u hu
  · rw [Item.ofTokens_append, Reader.feedAll_append_of_ok fed, turned]

/-- What goes wrong in a line is the first fault of its source if all lines before it are readable. -/
theorem parse_of_fault (tab : TabWidth) {source : List Char} {first rest : List CodeLine} {line : CodeLine}
    {e : ParseError} (split : Layout.codeLines source = first ++ line :: rest)
    (readable : ∀ l ∈ first, IsReadable l.content) (fault : LineFault (line.token tab.lineOptions) e) :
    parse tab source = .error e := by
  have here : line ∈ Layout.codeLines source := by simp [split]
  obtain ⟨tokens, more, r, whole, pass, fed, empty⟩ := exists_reader_before tab split readable
  rw [parse, Stretch.ofSource, whole, Stretch.ofTokens_append pass]
  cases fault with
  | @character q ch stops =>
    rw [Stretch.ofTokens_of_stop rfl (stops.stop?_lex (Layout.isContent_of_mem_codeLines here).single)]
    refine Program.ofStretch_of_failure
      ((Reader.feedAll_append_of_ok fed _).trans (Reader.feedAll_code r line _)) ?_
    simp [ParseError.ofStop, CodeLine.token, Token.code]
    omega
  | nothing lexes no_lexeme =>
    have no_item : (line.token tab.lineOptions).items = [] := by
      simpa [Token.items, CodeLine.token, Token.code] using no_lexeme
    have passes : (line.token tab.lineOptions).Passes := ⟨by simp [CodeLine.token, Token.code], fun _ => lexes⟩
    have end_passes : (line.endToken tab.lineOptions).Passes :=
      ⟨by simp [CodeLine.endToken, Token.newline], by simp [CodeLine.endToken, Token.newline]⟩
    have refused : r.feed? (line.endItem tab.lineOptions) = none := by
      simp [Reader.feed?, CodeLine.endItem, Item.ofToken, empty]
    rw [Stretch.ofTokens_cons passes, Stretch.ofTokens_cons end_passes, no_item]
    refine Program.ofStretch_of_error ((Reader.feedAll_append_of_ok fed _).trans ?_)
    have number := Layout.le_number_of_mem_codeLinesFrom here
    have out_of_place : ParseError.ofItem (line.endItem tab.lineOptions) = _ :=
      ParseError.ofItem_endItem (by omega) (Layout.width_nonneg tab.nonneg_lineOptions _)
    change r.feedAll (line.endItem tab.lineOptions :: _) = _
    rw [Reader.feedAll, refused, out_of_place]
    rfl

/-! ### The first fault -/

/-- A line that is not readable has a fault, and none that is readable has. -/
theorem exists_lineFault_iff {c : Token} (single : '\n' ∉ c.payload) :
    (∃ e, LineFault c e) ↔ ¬ IsReadable c.payload := by
  constructor
  · rintro ⟨e, fault⟩ readable
    cases fault with
    | character stops =>
      have := stops.stop?_lex single
      rw [readable.lexes] at this
      cases this
    | nothing _ no_lexeme => exact readable.has_lexeme no_lexeme
  · intro unreadable
    cases lexes : (Lexeme.lex c.payload).stop? with
    | none =>
      refine ⟨_, .nothing lexes ?_⟩
      by_contra has_lexeme
      exact unreadable ⟨lexes, has_lexeme⟩
    | some stop =>
      obtain ⟨q, stops, -⟩ := (Lexeme.stop?_lex_eq_some_iff single).1 lexes
      exact ⟨_, .character stops⟩

/-- A source is a program, or its first line that is not readable has a fault. -/
theorem exists_program_or_fault (tab : TabWidth) (source : List Char) :
    ((∀ line ∈ Layout.codeLines source, IsReadable line.content) ∧ ∃ p, parse tab source = .ok p) ∨
      ∃ first line rest e, Layout.codeLines source = first ++ line :: rest ∧
        (∀ l ∈ first, IsReadable l.content) ∧ ¬ IsReadable line.content ∧
        LineFault (line.token tab.lineOptions) e ∧ parse tab source = .error e := by
  classical
  cases found : (Layout.codeLines source).find? fun line => ¬ IsReadable line.content with
  | none =>
    have all : ∀ line ∈ Layout.codeLines source, IsReadable line.content := by
      simpa using List.find?_eq_none.1 found
    obtain ⟨r, -, parsed⟩ := parse_of_readable tab all
    exact .inl ⟨all, _, parsed⟩
  | some line =>
    obtain ⟨unreadable, first, rest, split, before⟩ := List.find?_eq_some_iff_append.1 found
    have unreadable : ¬ IsReadable line.content := by simpa using unreadable
    have before : ∀ l ∈ first, IsReadable l.content := by simpa using before
    have single := (Layout.isContent_of_mem_codeLines (by rw [split]; simp : line ∈ _)).single
    obtain ⟨e, fault⟩ := (exists_lineFault_iff (c := line.token tab.lineOptions) single).2 unreadable
    exact .inr ⟨first, line, rest, e, split, before, unreadable, fault, parse_of_fault tab split before fault⟩

theorem readable_of_parse {tab : TabWidth} {source : List Char} {p : Program}
    (h : parse tab source = .ok p) : ∀ line ∈ Layout.codeLines source, IsReadable line.content := by
  rcases exists_program_or_fault tab source with ⟨readable, -⟩ | ⟨-, -, -, e, -, -, -, -, failed⟩
  · exact readable
  · rw [failed] at h
    cases h

theorem Stretch.ofWordedSource_eq {tab : TabWidth} {source : List Char}
    (writable : ∀ d ∈ (Layout.run tab.lineOptions source).diagnostics, d.isWritable) :
    ofWordedSource tab source = .ok (ofSource tab source) := by
  have worded := Layout.Result.worded_eq_ok_iff.2 ⟨rfl, writable⟩
  simp [ofWordedSource, worded, bind, Except.bind, pure, Except.pure, ofSource]

/-- A program is told when all that is to be said about the layout of its source can be worded. -/
theorem Program.ofSource_eq_ok_iff {tab : TabWidth} {source : List Char} {p : Program} :
    Program.ofSource tab source = .ok p ↔
      parse tab source = .ok p ∧ ∀ d ∈ (Layout.run tab.lineOptions source).diagnostics, d.isWritable := by
  constructor
  · intro h
    refine ⟨parse_of_ofSource h, ?_⟩
    cases worded : (Layout.run tab.lineOptions source).worded with
    | ok r => exact (Layout.Result.worded_eq_ok_iff.1 worded).2
    | error e => simp [ofSource, Stretch.ofWordedSource, worded, bind, Except.bind] at h
  · rintro ⟨parsed, writable⟩
    simp only [ofSource, Stretch.ofWordedSource_eq writable]
    rw [show Program.ofStretch (Stretch.ofSource tab source) = .ok p from parsed]

/-- The first content that is not readable is that of the first line that is not. -/
theorem parse_of_fault_codes {tab : TabWidth} {source : List Char} {before after : List Token} {c : Token}
    {e : ParseError} (split : codes (Layout.run tab.lineOptions source).tokens = before ++ c :: after)
    (readable : ∀ b ∈ before, IsReadable b.payload) (fault : LineFault c e) : parse tab source = .error e := by
  rw [Layout.codes_run tab.nonneg_lineOptions] at split
  obtain ⟨first, rest, lines, rfl, hrest⟩ := List.map_eq_append_iff.1 split
  obtain ⟨line, rest, rfl, rfl, rfl⟩ := List.map_eq_cons_iff.1 hrest
  exact parse_of_fault tab lines (fun l hl => readable _ (List.mem_map_of_mem hl)) fault

/-- A source is a program exactly when each of its contents is readable. -/
theorem exists_parse_eq_ok_iff {tab : TabWidth} {source : List Char} : (∃ p, parse tab source = .ok p) ↔
    ∀ c ∈ codes (Layout.run tab.lineOptions source).tokens, IsReadable c.payload := by
  rw [Layout.codes_run tab.nonneg_lineOptions, List.forall_mem_map]
  constructor
  · rintro ⟨p, parsed⟩
    exact readable_of_parse parsed
  · intro readable
    obtain ⟨r, -, parsed⟩ := parse_of_readable tab readable
    exact ⟨_, parsed⟩

/-- Its error is the fault of the first content that is not. -/
theorem parse_eq_error_iff {tab : TabWidth} {source : List Char} {e : ParseError} : parse tab source = .error e ↔
    ∃ before c after, codes (Layout.run tab.lineOptions source).tokens = before ++ c :: after ∧
      (∀ b ∈ before, IsReadable b.payload) ∧ LineFault c e := by
  constructor
  · intro failed
    rcases exists_program_or_fault tab source with
      ⟨-, p, parsed⟩ | ⟨first, line, rest, e', split, readable, -, fault, failed'⟩
    · rw [parsed] at failed
      cases failed
    · obtain rfl := Except.error.inj (failed.symm.trans failed')
      refine ⟨first.map (·.token tab.lineOptions), _, rest.map (·.token tab.lineOptions), ?_,
        List.forall_mem_map.2 readable, fault⟩
      rw [Layout.codes_run tab.nonneg_lineOptions, split, List.map_append, List.map_cons]
  · rintro ⟨before, c, after, split, readable, fault⟩
    exact parse_of_fault_codes split readable fault

/-- **A source is a program exactly when each of its code lines is readable, and otherwise its error is the
fault of the first that is not.** However it is indented, nothing else can be wrong with it; and the error tells
the character, or the end of the line, that is wrong with that line, and where it stands. -/
theorem parse_ok_iff_and_error_iff (tab : TabWidth) (source : List Char) :
    ((∃ p, parse tab source = .ok p) ↔
      ∀ c ∈ codes (Layout.run tab.lineOptions source).tokens, IsReadable c.payload) ∧
    (∀ e, parse tab source = .error e ↔
      ∃ before c after, codes (Layout.run tab.lineOptions source).tokens = before ++ c :: after ∧
        (∀ b ∈ before, IsReadable b.payload) ∧ LineFault c e) ∧
    ∀ e, parse tab source = .error e →
      ∃ (before : List Token) (c : Token) (after : List Token),
        codes (Layout.run tab.lineOptions source).tokens = before ++ c :: after ∧ (∀ b ∈ before, IsReadable b.payload) ∧
        ((∃ (q : Nat) (ch : Char), Lexeme.StopsAt c.payload q ch ∧
            e.Tells c.line (c.column + q) ("Unexpected character " ++ Text.quote [ch])) ∨
          ((Lexeme.lex c.payload).stop? = none ∧ (Lexeme.lex c.payload).lexemes = [] ∧
            e.Tells c.line (c.column + c.payload.length)
              ("Unexpected token Token('_NL', '\\n') at line " ++ toString c.line ++ ", column " ++
                toString (c.column + c.payload.length + 1) ++ "."))) := by
  refine ⟨exists_parse_eq_ok_iff, fun e => parse_eq_error_iff, ?_⟩
  intro e failed
  obtain ⟨before, c, after, split, readable, fault⟩ := parse_eq_error_iff.1 failed
  exact ⟨before, c, after, split, readable, fault.tells⟩

end Offside
