import Mathlib.Data.List.Forall2
import Mathlib.Data.List.SplitBy
import Offside.Proofs.Layout.Session
import Offside.Proofs.Lexeme.Lossless
import Offside.Proofs.Program.Items

/-!
# Pieces

A list of tokens is turned into items stretch by stretch, and no token is lost or used twice between two of them: not
the tokens after an end of the source that comes early, nor those after a code line that cannot be cut into lexemes.

## The model

`Layout.pieces` cuts a list of tokens after every token that `Stops`, whatever is made of them. `Token.Becomes` says
field by field what a token is turned into, and `Fails` what is wrong with a code line that stops; a stretch that
`Renders` a piece is told by these two. The first stretch of a list renders its first piece and leaves the others
(`Stretch.exists_piece`); so the stretches render the pieces one after the other, and when all pieces are used up there
is nothing left to render.
-/

namespace Offside

open Layout (Token)

/-! ### Cutting a list of tokens -/

/-- The token stops a stretch: the source ends, or the code line cannot be cut into lexemes. -/
def Layout.Token.Stops (t : Token) : Prop :=
  t.kind = .endOfFile ∨ t.kind = .code ∧ (Lexeme.lex t.payload).stop? ≠ none

instance (t : Token) : Decidable t.Stops :=
  inferInstanceAs (Decidable (t.kind = .endOfFile ∨ t.kind = .code ∧ (Lexeme.lex t.payload).stop? ≠ none))

/-- Tokens in a row, cut after every one that stops a stretch. -/
def Layout.pieces (tokens : List Token) : List (List Token) := tokens.splitBy fun t _ => ¬ t.Stops

namespace Layout

variable {before piece rest tokens : List Token} {t : Token}

theorem Token.passes_iff : t.Passes ↔ ¬ t.Stops := by
  constructor
  · rintro ⟨goes_on, lexes⟩ (ends | ⟨code, fails⟩)
    · exact goes_on ends
    · exact fails (lexes code)
  · intro passes
    refine ⟨fun ends => passes (.inl ends), fun code => ?_⟩
    by_contra fails
    exact passes (.inr ⟨code, fails⟩)

/-- Tokens of which only the last may stop a stretch are one piece. -/
theorem pieces_of_passes (passes : ∀ u ∈ before, u.Passes) (t : Token) : pieces (before ++ [t]) = [before ++ [t]] := by
  refine List.splitBy_of_isChain (by simp) ?_
  induction before with
  | nil => exact List.isChain_singleton t
  | cons u more ih =>
    refine List.isChain_cons.2 ⟨fun _ _ => ?_, ih fun v hv => passes v (List.mem_cons_of_mem u hv)⟩
    exact decide_eq_true (Token.passes_iff.1 (passes u List.mem_cons_self))

/-- The first piece ends with the first token that stops a stretch. -/
theorem pieces_append_of_stops (passes : ∀ u ∈ before, u.Passes) (stops : t.Stops) (rest : List Token) :
    pieces (before ++ t :: rest) = (before ++ [t]) :: pieces rest := by
  have cut : pieces (before ++ [t] ++ rest) = pieces (before ++ [t]) ++ pieces rest := by
    refine List.splitBy_append ?_
    intro u last v _
    obtain rfl : t = u := by simpa using last
    exact decide_eq_false (not_not.2 stops)
  rw [List.append_cons, cut, pieces_of_passes passes]
  rfl

/-- Tokens have a first one that stops a stretch, or none of them but the last does. -/
theorem exists_first_stop (some_token : tokens ≠ []) :
    ∃ before t rest, tokens = before ++ t :: rest ∧ (∀ u ∈ before, u.Passes) ∧ (rest ≠ [] → t.Stops) := by
  induction tokens with
  | nil => exact absurd rfl some_token
  | cons u more ih =>
    by_cases stops : u.Stops
    · exact ⟨[], u, more, rfl, nofun, fun _ => stops⟩
    · cases more with
      | nil => exact ⟨[], u, [], rfl, nofun, fun some_rest => absurd rfl some_rest⟩
      | cons v others =>
        obtain ⟨before, t, rest, split, passes, last⟩ := ih (by simp)
        refine ⟨u :: before, t, rest, by rw [split, List.cons_append], ?_, last⟩
        exact List.forall_mem_cons.2 ⟨Token.passes_iff.2 stops, passes⟩

end Layout

/-! ### What a piece is turned into -/

/-- An item stands for a lexeme of a code line: on its line, and as far to the right of its column as the lexeme is
within the content. -/
structure Item.StandsFor (code : Token) (l : Lexeme) (item : Item) : Prop where
  symbol : item.symbol = .lexeme l.terminal
  text : item.text = l.text
  place : item.place = ⟨code.line, code.column + l.column⟩
  stop : item.stop? = some ⟨code.line, code.column + l.endColumn⟩

/-- What a token is turned into. -/
inductive Layout.Token.Becomes (t : Token) : List Item → Prop
  | indent (kind : t.kind = .indent) : Becomes t [⟨.indent, t.payload, ⟨t.line, t.column + 1⟩, none⟩]
  | dedent (kind : t.kind = .dedent) : Becomes t [⟨.dedent, t.payload, ⟨t.line, t.column + 1⟩, none⟩]
  | newline (kind : t.kind = .newline) : Becomes t [⟨.newline, t.payload, ⟨t.line, t.column + 1⟩, none⟩]
  | code {items : List Item} (kind : t.kind = .code)
      (each : List.Forall₂ (Item.StandsFor t) (Lexeme.lex t.payload).lexemes items) : Becomes t items
  | endOfFile (kind : t.kind = .endOfFile) : Becomes t []

/-- What is wrong with a code line that cannot be cut into lexemes. If it is a single line, its lexemes are those of
what lies before the character that none begins with, and this is told where it stands. -/
structure Layout.Token.Fails (code : Token) (e : ParseError) : Prop where
  kind : code.kind = .code
  line : e.line? = some code.line
  stop : ∃ stop, (Lexeme.lex code.payload).stop? = some stop ∧ e.cause = .unexpectedCharacter stop.char ∧
    e.column? = some (code.column + stop.column - 1)
  offset : '\n' ∉ code.payload → ∃ q c, Lexeme.StopsAt code.payload q c ∧ e.cause = .unexpectedCharacter c ∧
    e.column? = some (code.column + q) ∧
    Lexeme.lex (code.payload.take q) = ⟨(Lexeme.lex code.payload).lexemes, none⟩

/-- A stretch is what a piece is turned into: the items of its tokens in order, and the fault of the last of them if
that is a code line which cannot be cut. -/
structure Stretch.Renders (s : Stretch) (piece : List Token) : Prop where
  items : ∃ parts, List.Forall₂ Token.Becomes piece parts ∧ s.items = parts.flatten
  failure : ∀ e, s.failure? = some e ↔ ∃ last, piece.getLast? = some last ∧ last.Fails e

theorem Layout.Token.becomes_items (t : Token) : t.Becomes t.items := by
  cases kind : t.kind with
  | indent =>
    rw [items, kind]
    exact .indent kind
  | dedent =>
    rw [items, kind]
    exact .dedent kind
  | newline =>
    rw [items, kind]
    exact .newline kind
  | code =>
    rw [items, kind]
    exact .code kind (List.forall₂_map_right_iff.2 (List.forall₂_same.2 fun l _ => ⟨rfl, rfl, rfl, rfl⟩))
  | endOfFile =>
    rw [items, kind]
    exact .endOfFile kind

theorem Layout.Token.fails_iff {code : Token} {stop : Lexeme.Stop} {e : ParseError} (kind : code.kind = .code)
    (stops : (Lexeme.lex code.payload).stop? = some stop) : code.Fails e ↔ e = .ofStop code stop := by
  constructor
  · rintro ⟨-, line, ⟨stop', stops', cause, column⟩, -⟩
    obtain rfl : stop = stop' := Option.some.inj (stops.symm.trans stops')
    obtain ⟨cause', line', column'⟩ := e
    obtain rfl : cause' = .unexpectedCharacter stop.char := cause
    obtain rfl : line' = some code.line := line
    obtain rfl : column' = some (code.column + stop.column - 1) := column
    rfl
  · rintro rfl
    refine ⟨kind, rfl, ⟨stop, stops, rfl, rfl⟩, fun single => ?_⟩
    obtain ⟨q, stopsAt, column⟩ := (Lexeme.stop?_lex_eq_some_iff single).1 stops
    refine ⟨q, stop.char, stopsAt, rfl, ?_, Lexeme.lex_take_of_stopsAt single stopsAt⟩
    rw [ParseError.ofStop, column, Option.some.injEq]
    omega

/-! ### Stretch after stretch -/

namespace Stretch

open Layout (pieces Options Result run)

variable {before piece rest tokens : List Token} {t : Token}

/-- What a token leaves to the stretch that it stops. -/
theorem ofTokens_cons_of_stops (stops : t.Stops) (rest : List Token) :
    ∃ failure?, ofTokens (t :: rest) = ⟨t.items, failure?, rest⟩ ∧ ∀ e, failure? = some e ↔ t.Fails e := by
  rcases stops with ends | ⟨code, fails⟩
  · refine ⟨none, by simp [ofTokens, Token.items, ends], fun e => iff_of_false nofun fun fails => ?_⟩
    have code := fails.kind
    rw [ends] at code
    cases code
  · obtain ⟨stop, found⟩ := Option.ne_none_iff_exists'.1 fails
    refine ⟨some (.ofStop t stop), ofTokens_of_stop code found rest, fun e => ?_⟩
    rw [Layout.Token.fails_iff code found, Option.some.injEq, eq_comm]

theorem not_fails_of_passes (passes : t.Passes) (e : ParseError) : ¬ t.Fails e := by
  rintro ⟨code, -, ⟨stop, found, -⟩, -⟩
  rw [passes.lexes code] at found
  cases found

/-- The items of tokens are those that each of them becomes. -/
theorem exists_parts (tokens : List Token) :
    ∃ parts, List.Forall₂ Token.Becomes tokens parts ∧ Item.ofTokens tokens = parts.flatten := by
  refine ⟨tokens.map Token.items, ?_, (List.flatMap_def ..)⟩
  exact List.forall₂_map_right_iff.2 (List.forall₂_same.2 fun t _ => t.becomes_items)

/-- **The first stretch of tokens renders their first piece**, and leaves the other pieces. -/
theorem exists_piece (some_token : tokens ≠ []) :
    ∃ before last, pieces tokens = (before ++ [last]) :: pieces (ofTokens tokens).rest ∧
      (∀ t ∈ before, t.Passes) ∧ ((ofTokens tokens).rest ≠ [] → last.Stops) ∧
      (ofTokens tokens).Renders (before ++ [last]) := by
  obtain ⟨before, t, rest, rfl, passes, last⟩ := Layout.exists_first_stop some_token
  obtain ⟨parts, each, items⟩ := exists_parts (before ++ [t])
  rw [ofTokens_append passes]
  by_cases stops : t.Stops
  · obtain ⟨failure?, stopped, fault⟩ := ofTokens_cons_of_stops stops rest
    rw [stopped]
    refine ⟨before, t, Layout.pieces_append_of_stops passes stops rest, passes, fun _ => stops, ⟨parts, each, ?_⟩, ?_⟩
    · rw [← items]
      simp
    · simpa using fault
  · -- only at the end of the list does a piece end with a token that passes
    obtain rfl : rest = [] := by
      by_contra some_rest
      exact stops (last some_rest)
    have t_passes := Layout.Token.passes_iff.2 stops
    rw [ofTokens_cons t_passes, ofTokens]
    refine ⟨before, t, Layout.pieces_of_passes passes t, passes, absurd rfl, ⟨parts, each, ?_⟩, ?_⟩
    · rw [← items]
      simp
    · simpa using fun e => not_fails_of_passes t_passes e

/-- So many stretches leave the pieces after so many. -/
theorem pieces_tokensAfter (k : Nat) (tokens : List Token) :
    pieces (tokensAfter k tokens) = (pieces tokens).drop k := by
  induction k generalizing tokens with
  | zero => rfl
  | succ k ih =>
    rw [tokensAfter, ih]
    rcases eq_or_ne tokens [] with rfl | some_token
    · exact List.drop_nil.trans List.drop_nil.symm
    · obtain ⟨_, _, split, -⟩ := exists_piece some_token
      rw [split, List.drop_succ_cons]

theorem tokensAfter_eq_nil {k : Nat} (used_up : (pieces tokens).length ≤ k) : tokensAfter k tokens = [] := by
  rw [← List.splitBy_eq_nil (r := fun t _ => ¬ t.Stops)]
  exact (pieces_tokensAfter k tokens).trans (List.drop_eq_nil_of_le used_up)

/-- In a source that was laid out to its end, only the last token says that it ends. -/
theorem exists_last_of_finished {o : Options} {source : List Char} (finished : (run o source).finished = true) :
    ∃ before last, (run o source).tokens = before ++ [last] ∧ ∀ t ∈ before, t.kind ≠ .endOfFile := by
  have inside : ∀ line ∈ Layout.codeLines source, 0 ≤ line.width o.tabWidth := by
    intro line mem
    by_contra left
    rw [Layout.finished_run_eq_false_iff.2 ⟨line, mem, Int.not_le.1 left⟩] at finished
    cases finished
  obtain ⟨out, s, reached⟩ := Layout.exists_reached_of_nonneg inside
  obtain ⟨before, tokens_eq, unended⟩ := (reached.complete (Text.lines source).length).ends
  rw [reached.run_eq]
  exact ⟨before, _, tokens_eq, unended⟩

/-- A stretch without a fault takes all tokens, if only the last of them may end the source. -/
theorem rest_eq_nil_of_quiet {last : Token} (unended : ∀ u ∈ before, u.kind ≠ .endOfFile)
    (quiet : (ofTokens (before ++ [last])).failure? = none) : (ofTokens (before ++ [last])).rest = [] := by
  induction before with
  | nil =>
    by_cases stops : last.Stops
    · obtain ⟨_, stopped, -⟩ := ofTokens_cons_of_stops stops []
      rw [List.nil_append, stopped]
    · rw [List.nil_append, ofTokens_cons (Layout.Token.passes_iff.2 stops)]
      rfl
  | cons u more ih =>
    obtain ⟨u_unended, more_unended⟩ := List.forall_mem_cons.1 unended
    by_cases stops : u.Stops
    · obtain ⟨code, fails⟩ := stops.resolve_left u_unended
      obtain ⟨stop, found⟩ := Option.ne_none_iff_exists'.1 fails
      rw [List.cons_append, ofTokens_of_stop code found] at quiet
      cases quiet
    · rw [List.cons_append, ofTokens_cons (Layout.Token.passes_iff.2 stops)] at quiet ⊢
      exact ih more_unended quiet

/-- The stretch after so many renders the piece after so many. -/
theorem exists_nth_piece {k : Nat} (nth : (pieces tokens)[k]? = some piece) :
    ∃ before last, piece = before ++ [last] ∧ (∀ t ∈ before, t.Passes) ∧
      (k + 1 < (pieces tokens).length → last.Stops) ∧ (ofTokens (tokensAfter k tokens)).Renders piece := by
  have left : pieces (tokensAfter k tokens) = piece :: (pieces tokens).drop (k + 1) := by
    obtain ⟨inside, rfl⟩ := List.getElem?_eq_some_iff.1 nth
    rw [pieces_tokensAfter, List.drop_eq_getElem_cons inside]
  have some_token : tokensAfter k tokens ≠ [] := by
    intro none
    rw [none] at left
    cases left
  obtain ⟨before, last, split, passes, stops, renders⟩ := exists_piece some_token
  obtain ⟨rfl, others⟩ := List.cons.inj (left.symm.trans split)
  refine ⟨before, last, rfl, passes, fun more => stops fun none => ?_, renders⟩
  have used_up : (pieces tokens).drop (k + 1) = [] := by rw [others, none]; rfl
  exact absurd (List.drop_eq_nil_iff.1 used_up) (Nat.not_le.2 more)

/-- **Each stretch takes up where the one before it stopped.** Tokens are cut after each that stops a stretch; the
stretches render the pieces one by one, with the items before a character that none begins with, and nothing comes after
the last. Of a source that was laid out to its end, a first stretch without a fault takes everything. -/
theorem renders_pieces (tokens : List Token) :
    ((pieces tokens).flatten = tokens ∧
      ∀ k piece, (pieces tokens)[k]? = some piece → ∃ before last, piece = before ++ [last] ∧
        (∀ t ∈ before, ¬ t.Stops) ∧ (k + 1 < (pieces tokens).length → last.Stops)) ∧
    (∀ k piece, (pieces tokens)[k]? = some piece → (ofTokens (tokensAfter k tokens)).Renders piece) ∧
    (∀ k, (pieces tokens).length ≤ k → ofTokens (tokensAfter k tokens) = {}) ∧
    ∀ o source, (run o source).finished = true → (ofTokens (run o source).tokens).failure? = none →
      ∀ k, ofTokens (tokensAfter (k + 1) (run o source).tokens) = {} := by
  refine ⟨⟨List.flatten_splitBy _ tokens, ?_⟩, ?_, ?_, ?_⟩
  · intro k piece nth
    obtain ⟨before, last, rfl, passes, stops, -⟩ := exists_nth_piece nth
    exact ⟨before, last, rfl, fun t ht => Layout.Token.passes_iff.1 (passes t ht), stops⟩
  · intro k piece nth
    obtain ⟨_, _, -, -, -, renders⟩ := exists_nth_piece nth
    exact renders
  · intro k used_up
    rw [tokensAfter_eq_nil used_up]
    rfl
  · intro o source finished quiet k
    obtain ⟨before, last, split, unended⟩ := exists_last_of_finished finished
    rw [split] at quiet ⊢
    rw [tokensAfter, rest_eq_nil_of_quiet unended quiet, tokensAfter_eq_nil (Nat.zero_le k)]
    rfl

/-- Tokens that no source has: a code line that cannot be cut comes first, and the source ends between two others. -/
theorem renders_pieces_ended :
    (pieces [.code "a #b".toList 3 2, .indent 4, .endOfFile 5, .code "c".toList 6 0])[0]? =
        some [.code "a #b".toList 3 2] ∧
      (ofTokens [.code "a #b".toList 3 2, .indent 4, .endOfFile 5, .code "c".toList 6 0]).Renders
        [.code "a #b".toList 3 2] ∧
      (ofTokens (tokensAfter 1 [.code "a #b".toList 3 2, .indent 4, .endOfFile 5, .code "c".toList 6 0])).Renders
        [.indent 4, .endOfFile 5] ∧
      (ofTokens (tokensAfter 2 [.code "a #b".toList 3 2, .indent 4, .endOfFile 5, .code "c".toList 6 0])).Renders
        [.code "c".toList 6 0] ∧
      ofTokens (tokensAfter 3 [.code "a #b".toList 3 2, .indent 4, .endOfFile 5, .code "c".toList 6 0]) = {} ∧
    (run {} "a\n  b\nc".toList).finished = true ∧
      (ofTokens (run {} "a\n  b\nc".toList).tokens).failure? = none ∧
      ofTokens (tokensAfter 1 (run {} "a\n  b\nc".toList).tokens) = {} := by
  obtain ⟨-, renders, nothing, -⟩ :=
    renders_pieces [.code "a #b".toList 3 2, .indent 4, .endOfFile 5, .code "c".toList 6 0]
  have first : (pieces [.code "a #b".toList 3 2, .indent 4, .endOfFile 5, .code "c".toList 6 0])[0]? =
      some [.code "a #b".toList 3 2] := by decide +kernel
  have finished : (run {} "a\n  b\nc".toList).finished = true := by decide +kernel
  have quiet : (ofTokens (run {} "a\n  b\nc".toList).tokens).failure? = none := by decide +kernel
  exact ⟨first, renders 0 _ first, renders 1 _ (by decide +kernel), renders 2 _ (by decide +kernel),
    nothing 3 (by decide +kernel), finished, quiet, (renders_pieces []).2.2.2 {} _ finished quiet 0⟩

end Stretch

end Offside
