import Offside.Proofs.Layout.Turn

/-!
# What holds of every run

At every moment of a run the levels, the tokens given so far and the scopes entered so far fit together.

## The model

`Consistent` says how they fit after some code lines: the levels lead from column 0 to the innermost one,
the tokens have opened as many scopes as there are levels above column 0 and never closed more than they
had opened, and the scopes entered are those that the tokens open (`Accounts`). `Complete` says what is
true of a whole run, in which nothing is left open. Both are proved of every state that is `Reached`, by
induction on the way to it: `Turns` tells what one line may change.
-/

namespace Offside.Layout

/-! ### Counting tokens -/

/-- The tokens of a kind. -/
def countKind (kind : Kind) (tokens : List Token) : Nat := tokens.countP (·.kind == kind)

@[simp] theorem countKind_nil (kind : Kind) : countKind kind [] = 0 := rfl

@[simp] theorem countKind_append (kind : Kind) (first second : List Token) :
    countKind kind (first ++ second) = countKind kind first + countKind kind second :=
  List.countP_append

theorem countKind_cons (kind : Kind) (t : Token) (rest : List Token) :
    countKind kind (t :: rest) = countKind kind rest + if t.kind = kind then 1 else 0 := by
  simp [countKind, List.countP_cons]

theorem depth_eq_count (tokens : List Token) :
    depth tokens = (countKind .indent tokens : Int) - countKind .dedent tokens := rfl

theorem countKind_eq_zero {kind : Kind} {tokens : List Token} (h : ∀ t ∈ tokens, t.kind ≠ kind) :
    countKind kind tokens = 0 := by
  simpa [countKind, List.countP_eq_zero] using h

@[simp] theorem CodeLine.depth_tokens (o : Options) (line : CodeLine) : depth (line.tokens o) = 0 := by
  unfold CodeLine.tokens
  split <;> rfl

theorem CodeLine.countKind_tokens {kind : Kind} (hc : kind ≠ .code) (hn : kind ≠ .newline) (o : Options)
    (line : CodeLine) : countKind kind (line.tokens o) = 0 :=
  countKind_eq_zero fun _ ht => CodeLine.kind_ne_of_mem_tokens hc hn ht

@[simp] theorem depth_replicate_dedent (n : Nat) (line : Int) :
    depth (List.replicate n (.dedent line)) = -n := by
  induction n with
  | zero => rfl
  | succ n ih =>
    rw [List.replicate_succ, depth_cons, ih]
    simp only [Token.dedent, Kind.change]
    omega

@[simp] theorem countKind_replicate_dedent (kind : Kind) (n : Nat) (line : Int) :
    countKind kind (List.replicate n (.dedent line)) = if kind = .dedent then n else 0 := by
  cases kind <;> simp [countKind, Token.dedent, List.countP_replicate]

/-! ### Open scopes -/

/-- At no moment have more scopes been closed than opened. -/
def NeverNegative (tokens : List Token) : Prop := ∀ p, p <+: tokens → 0 ≤ depth p

theorem NeverNegative.append {first second : List Token} (h : NeverNegative first)
    (enough : (countKind .dedent second : Int) ≤ depth first) : NeverNegative (first ++ second) := by
  rintro p ⟨q, hq⟩
  rcases List.append_eq_append_iff.1 hq with ⟨r, rfl, -⟩ | ⟨r, rfl, rfl⟩
  · exact h p (List.prefix_append p r)
  · have fewer : countKind .dedent r ≤ countKind .dedent (r ++ q) := by simp
    rw [depth_append, depth_eq_count r]
    omega

variable {o : Options} {s : State} {line : CodeLine} {turn : Emission} {levels : List Int}

/-- A turn opens as many scopes as there are levels more, or closes as many as there are fewer. -/
theorem Turns.depth_eq (t : Turns o s line turn levels) :
    depth turn.tokens = (levels.length : Int) - s.levels.length := by
  cases t with
  | enter _ =>
    have one : depth [Token.indent line.number] = 1 := rfl
    rw [one, List.length_cons]
    omega
  | leave _ split _ _ =>
    rw [split, depth_replicate_dedent, List.length_append]
    omega

theorem Turns.countKind_dedent_lt (h : s.Sound) (t : Turns o s line turn levels) :
    countKind .dedent turn.tokens < s.levels.length := by
  cases t with
  | enter _ => exact h.length_pos
  | leave _ split _ _ =>
    rw [split]
    simp

variable {lines : List CodeLine} {out : Emission}

theorem Reached.width_eq (h : Reached o lines out s) :
    s.width = (lines.getLast?.map (·.width o.tabWidth)).getD 0 := by
  cases h with
  | start => rfl
  | next _ _ => simp

/-- As many scopes are open as there are levels above column 0. -/
theorem Reached.depth_eq (h : Reached o lines out s) :
    depth out.tokens = (s.levels.length : Int) - 1 := by
  induction h with
  | start => rfl
  | next _ t ih =>
    rw [Emission.tokens_append, depth_append, ih, CodeLine.tokens_emission, depth_append, t.depth_eq,
      CodeLine.depth_tokens, CodeLine.levels_state]
    omega

theorem Reached.neverNegative (h : Reached o lines out s) : NeverNegative out.tokens := by
  induction h with
  | start =>
    intro p hp
    rw [List.prefix_nil.1 hp]
    exact Int.le_refl 0
  | next before t ih =>
    refine ih.append ?_
    have := t.countKind_dedent_lt before.sound
    rw [CodeLine.tokens_emission, countKind_append, CodeLine.countKind_tokens (by decide) (by decide),
      before.depth_eq]
    omega

/-! ### The scopes entered -/

/-- The content of the last code line among tokens. -/
def lastCode? (tokens : List Token) : Option (List Char) := (codes tokens).getLast?.map Token.payload

/-- The scopes are those that the tokens open, one for each and in order. A scope is opened right before
a code line, at whose column and line it is entered, and its category is that of the last code line before
it, or of that line itself if it is the first. -/
structure Accounts (tokens : List Token) (scopes : List Scope) : Prop where
  length_eq : scopes.length = countKind .indent tokens
  entry : ∀ before t after, tokens = before ++ t :: after → t.kind = .indent →
    ∃ c rest, after = c :: rest ∧ c.kind = .code ∧
      scopes[countKind .indent before]? =
        some ⟨c.column, c.line, classify ((lastCode? before).getD c.payload)⟩

theorem split_append {α : Type} {first second before after : List α} {a : α}
    (h : first ++ second = before ++ a :: after) :
    (∃ r, first = before ++ a :: r ∧ after = r ++ second) ∨
      ∃ r, before = first ++ r ∧ second = r ++ a :: after := by
  rcases List.append_eq_append_iff.1 h with ⟨r, hb, hs⟩ | ⟨r, hf, hs⟩
  · exact .inr ⟨r, hb, hs⟩
  · cases r with
    | nil => exact .inr ⟨[], by rw [hf, List.append_nil, List.append_nil], hs.symm⟩
    | cons b r =>
      obtain ⟨rfl, rfl⟩ := List.cons.inj hs
      exact .inl ⟨r, hf, rfl⟩

theorem Accounts.append {first second : List Token} {scopes : List Scope} (h : Accounts first scopes)
    (none : ∀ t ∈ second, t.kind ≠ .indent) : Accounts (first ++ second) scopes := by
  refine ⟨by rw [countKind_append, countKind_eq_zero none, h.length_eq, Nat.add_zero], ?_⟩
  intro before t after split opens
  rcases split_append split with ⟨r, hf, rfl⟩ | ⟨r, -, hs⟩
  · obtain ⟨c, rest, rfl, code, entered⟩ := h.entry before t r hf opens
    exact ⟨c, rest ++ second, rfl, code, entered⟩
  · exact absurd opens (none t (by simp [hs]))

/-- One more scope is opened and entered. -/
theorem Accounts.enter {first rest : List Token} {t c : Token} {scopes : List Scope}
    (h : Accounts first scopes) (opens : t.kind = .indent) (code : c.kind = .code)
    (none : ∀ u ∈ rest, u.kind ≠ .indent) :
    Accounts (first ++ t :: c :: rest)
      (scopes ++ [⟨c.column, c.line, classify ((lastCode? first).getD c.payload)⟩]) := by
  have tail : ∀ u ∈ c :: rest, u.kind ≠ .indent := by
    intro u hu
    rcases List.mem_cons.1 hu with rfl | hu
    · simp [code]
    · exact none u hu
  refine ⟨?_, ?_⟩
  · rw [countKind_append, countKind_cons, countKind_eq_zero tail, if_pos opens, List.length_append,
      h.length_eq]
    rfl
  · intro before u after split opens'
    rcases split_append split with ⟨r, hf, rfl⟩ | ⟨r, rfl, hs⟩
    · obtain ⟨c', rest', rfl, code', entered⟩ := h.entry before u r hf opens'
      refine ⟨c', rest' ++ t :: c :: rest, rfl, code', ?_⟩
      rw [List.getElem?_append_left (List.getElem?_eq_some_iff.1 entered).1, entered]
    · cases r with
      | nil =>
        obtain ⟨rfl, rfl⟩ := List.cons.inj hs
        refine ⟨c, rest, rfl, code, ?_⟩
        rw [List.append_nil, ← h.length_eq]
        simp
      | cons v r =>
        -- after the token that opens the scope there is no other
        obtain ⟨-, hs⟩ := List.cons.inj hs
        exact absurd opens' (tail u (by rw [hs]; simp))

theorem Reached.header_eq (h : Reached o lines out s) : s.header = lastCode? out.tokens := by
  rw [lastCode?, h.codes_eq]
  cases h with
  | start => rfl
  | next _ _ => simp [CodeLine.token, Token.code]

theorem Reached.accounts (h : Reached o lines out s) : Accounts out.tokens out.scopes := by
  induction h with
  | start => exact ⟨rfl, fun before t after split => by simp at split⟩
  | @next _ out _ line _ _ before t ih =>
    have none : ∀ u ∈ line.tokens o, u.kind ≠ .indent := fun u hu =>
      CodeLine.kind_ne_of_mem_tokens (by decide) (by decide) hu
    cases t with
    | enter _ =>
      rw [before.header_eq]
      exact ih.enter rfl rfl fun u hu => none u (List.mem_cons_of_mem _ hu)
    | leave _ _ _ _ =>
      simp only [Emission.tokens_append, CodeLine.tokens_emission, Emission.scopes_append,
        CodeLine.scopes_emission, List.append_nil]
      refine ih.append fun u hu => ?_
      rcases List.mem_append.1 hu with hu | hu
      · rw [List.eq_of_mem_replicate hu]
        simp [Token.dedent]
      · exact none u hu

/-! ### The invariant -/

/-- How levels, tokens and scopes fit together after some code lines. -/
structure Consistent (o : Options) (lines : List CodeLine) (out : Emission) (s : State) : Prop where
  /-- Innermost first, each level lies to the right of the next. -/
  decreasing : s.levels.Pairwise (· > ·)
  /-- The outermost level is column 0. -/
  base : s.levels.getLast? = some 0
  /-- The innermost level lies at the last code line or to the left of it. -/
  top_le : ∀ top ∈ s.levels.head?, top ≤ (lines.getLast?.map (·.width o.tabWidth)).getD 0
  /-- There is a level above column 0 for each scope that is open. -/
  depth_eq : (countKind .indent out.tokens : Int) - countKind .dedent out.tokens = s.levels.length - 1
  neverNegative : NeverNegative out.tokens
  accounts : Accounts out.tokens out.scopes

/-- What one more line does to levels and scopes: either no scope is entered and levels are at most
dropped, or one scope is entered and its level is put on top of those there were. -/
def Entered (scopes scopes' : List Scope) (levels levels' : List Int) : Prop :=
  (scopes' = scopes ∧ levels' <:+ levels) ∨
    ∃ entered, scopes' = scopes ++ [entered] ∧ levels' = entered.level :: levels

/-- How tokens and scopes fit together at the end of a source of so many lines. -/
structure Complete (lines : Nat) (r : Result) : Prop where
  finished : r.finished = true
  levels_eq : r.levels = [0]
  balanced : countKind .indent r.tokens = countKind .dedent r.tokens
  neverNegative : NeverNegative r.tokens
  /-- The last token says that the source ends, and no other does. -/
  ends : ∃ before, r.tokens = before ++ [.endOfFile (lines + 1)] ∧ ∀ t ∈ before, t.kind ≠ .endOfFile
  accounts : Accounts r.tokens r.scopes

theorem Reached.consistent (h : Reached o lines out s) : Consistent o lines out s where
  decreasing := h.sound.decreasing
  base := h.sound.base
  top_le top ht := h.width_eq ▸ h.sound.le_width top (List.mem_of_mem_head? ht)
  depth_eq := h.depth_eq
  neverNegative := h.neverNegative
  accounts := h.accounts

theorem Turns.entered (t : Turns o s line turn levels) (scopes : List Scope) :
    Entered scopes (scopes ++ turn.scopes) s.levels levels := by
  cases t with
  | enter _ => exact .inr ⟨_, rfl, rfl⟩
  | leave _ split _ _ => exact .inl ⟨List.append_nil _, split ▸ List.suffix_append _ _⟩

/-- Closing what is open completes a run. -/
theorem Reached.complete (h : Reached o lines out s) (n : Nat) :
    Complete n ⟨out ++ { tokens := closing (n + 1) s.levels }, [0], true⟩ where
  finished := rfl
  levels_eq := rfl
  balanced := by
    have open_scopes := h.depth_eq
    have := h.sound.length_pos
    rw [depth_eq_count] at open_scopes
    simp [closing, countKind_cons, Token.endOfFile]
    omega
  neverNegative := by
    refine h.neverNegative.append ?_
    have := h.depth_eq
    have := h.sound.length_pos
    simp [closing, countKind_cons, Token.endOfFile]
    omega
  ends := by
    refine ⟨out.tokens ++ List.replicate (s.levels.length - 1) (.dedent (n + 1)), by simp [closing],
      fun t ht => ?_⟩
    rcases List.mem_append.1 ht with ht | ht
    · exact h.kind_ne_endOfFile t ht
    · rw [List.eq_of_mem_replicate ht]
      simp [Token.dedent]
  accounts := by
    rw [Emission.scopes_append, List.append_nil]
    exact h.accounts.append fun t ht => kind_ne_of_mem_closing (by decide) (by decide) ht

/-- The code lines among the first `k` physical lines. -/
def firstCodeLines (k : Nat) (source : List Char) : List CodeLine :=
  codeLinesFrom 1 ((Text.lines source).take k)

theorem firstCodeLines_succ (k : Nat) (source : List Char) :
    firstCodeLines (k + 1) source = firstCodeLines k source ∨
      ∃ line, firstCodeLines (k + 1) source = firstCodeLines k source ++ [line] := by
  unfold firstCodeLines
  rw [List.take_add_one, codeLinesFrom_append]
  cases (Text.lines source)[k]? with
  | none => simp [codeLinesFrom]
  | some text => by_cases h : isTransparent text <;> simp [codeLinesFrom, h]

/-- **Levels, tokens and scopes fit together after any number of lines**, each level above column 0 is
that of the scope entered when it was put there, and at the end of the source nothing is left open. -/
theorem runLines_consistent (h : 0 < o.tabWidth) (source : List Char) :
    (∀ k, ∃ out s out' s',
      runLines o {} (firstCodeLines k source) = (out, some s) ∧
      Consistent o (firstCodeLines k source) out s ∧
      runLines o {} (firstCodeLines (k + 1) source) = (out', some s') ∧
      Entered out.scopes out'.scopes s.levels s'.levels) ∧
    Complete (Text.lines source).length (run o source) := by
  constructor
  · intro k
    obtain ⟨out, s, reached⟩ := exists_reached (Int.le_of_lt h) (firstCodeLines k source)
    rcases firstCodeLines_succ k source with same | ⟨line, more⟩
    · refine ⟨out, s, out, s, reached.runLines_eq, reached.consistent, same ▸ reached.runLines_eq, ?_⟩
      exact .inl ⟨rfl, List.suffix_rfl⟩
    · obtain ⟨turn, levels, t⟩ := exists_turns reached.sound (width_nonneg (Int.le_of_lt h) line.margin)
      refine ⟨out, s, _, _, reached.runLines_eq, reached.consistent, more ▸ (reached.next t).runLines_eq, ?_⟩
      exact t.entered out.scopes
  · obtain ⟨out, s, reached, whole⟩ := exists_run (Int.le_of_lt h) source
    rw [whole]
    exact reached.complete _

/-- The invariant where the last line stands to the right of the innermost level. -/
theorem complete_misaligned :
    (0 : Int) < 4 ∧ Complete 3 (run { tabWidth := 4 } "fn f\n\ta\n  b\n".toList) :=
  ⟨by decide, (runLines_consistent (o := { tabWidth := 4 }) (by decide) "fn f\n\ta\n  b\n".toList).2⟩

end Offside.Layout
