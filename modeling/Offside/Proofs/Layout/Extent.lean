import Mathlib.Data.List.Induction
import Offside.Proofs.Layout.Invariant

/-!
# Extents of scopes

How far a scope reaches can be told from the widths of the code lines alone: it is opened by a line that
stands to the right of the line before it, and closed before the first later line that stands to the left of
that line.

## The model

`openLines` finds, without keeping any levels, the lines that opened a scope which no later line has closed;
the levels that a run keeps are their widths (`Reached.levels_eq`). Two tokens belong together as opening and
closing when what stands between them `IsBalanced`, and `ClosedAt` says which the closing one is.
`Placed` says all of this about one line of a source, and holds of each.

A line only closes scopes when it has moved to the left of the line before it, which need not be where the
innermost scope was opened. No closing is missed by that: a line that has not moved to the left stands to the
right of every level, or at it (`State.Sound.le_width`).
-/

namespace Offside.Layout

/-! ### Levels without a stack -/

/-- The width of the last of some code lines, and `previous` if there is none. -/
def lastWidth (tab previous : Int) (lines : List CodeLine) : Int :=
  (lines.getLast?.map (·.width tab)).getD previous

/-- The lines that stand to the right of the line before them, and to whose left no later line stands. Before
the first of them is a line of width `previous`. -/
def openLines (tab previous : Int) : List CodeLine → List CodeLine
  | [] => []
  | line :: rest =>
    if previous < line.width tab && rest.all (line.width tab ≤ ·.width tab) then
      line :: openLines tab (line.width tab) rest
    else openLines tab (line.width tab) rest

@[simp] theorem lastWidth_nil (tab previous : Int) : lastWidth tab previous [] = previous := rfl

theorem lastWidth_cons (tab previous : Int) (line : CodeLine) (rest : List CodeLine) :
    lastWidth tab previous (line :: rest) = lastWidth tab (line.width tab) rest := by
  cases rest with
  | nil => rfl
  | cons next rest => simp [lastWidth, List.getLast?_cons]

/-- One more line closes the scopes opened to its right, and may open one. -/
theorem openLines_append_singleton (tab previous : Int) (lines : List CodeLine) (line : CodeLine) :
    openLines tab previous (lines ++ [line]) =
      (openLines tab previous lines).filter (·.width tab ≤ line.width tab) ++
        if lastWidth tab previous lines < line.width tab then [line] else [] := by
  induction lines generalizing previous with
  | nil => by_cases right : previous < line.width tab <;> simp [openLines, right]
  | cons l rest ih =>
    have all : (rest ++ [line]).all (l.width tab ≤ ·.width tab) =
        (rest.all (l.width tab ≤ ·.width tab) && decide (l.width tab ≤ line.width tab)) := by simp
    rw [List.cons_append, openLines, ih, lastWidth_cons, openLines, all]
    cases right : decide (previous < l.width tab) with
    | false => simp
    | true =>
      cases none_left : rest.all (l.width tab ≤ ·.width tab) with
      | false => simp
      | true => by_cases kept : l.width tab ≤ line.width tab <;> simp [kept]

variable {o : Options} {s : State} {line : CodeLine} {turn : Emission} {levels : List Int}
  {lines : List CodeLine} {out : Emission}

theorem State.Sound.width_nonneg (h : s.Sound) : 0 ≤ s.width := h.le_width 0 (List.mem_of_getLast? h.base)

theorem Reached.width_eq_lastWidth (h : Reached o lines out s) :
    s.width = lastWidth o.tabWidth 0 lines := h.width_eq

/-- Levels that a line does not close are those that stand at it or to the left of it. -/
theorem Turns.levels_eq (h : s.Sound) (t : Turns o s line turn levels) :
    levels.reverse = s.levels.reverse.filter (· ≤ line.width o.tabWidth) ++
      if s.width < line.width o.tabWidth then [line.width o.tabWidth] else [] := by
  cases t with
  | enter right =>
    have kept : s.levels.reverse.filter (· ≤ line.width o.tabWidth) = s.levels.reverse := by
      refine List.filter_eq_self.2 fun level hl => decide_eq_true ?_
      have := h.le_width level (List.mem_reverse.1 hl)
      omega
    rw [kept, if_pos right, List.reverse_cons]
  | @leave closed outer level left split right within =>
    have decreasing := h.decreasing
    rw [split, List.pairwise_append] at decreasing
    have closed_none : closed.reverse.filter (· ≤ line.width o.tabWidth) = [] := by
      refine List.filter_eq_nil_iff.2 fun l hl => ?_
      have := right l (List.mem_reverse.1 hl)
      simpa using this
    have kept : (level :: outer).reverse.filter (· ≤ line.width o.tabWidth) = (level :: outer).reverse := by
      refine List.filter_eq_self.2 fun l hl => decide_eq_true ?_
      rcases List.mem_cons.1 (List.mem_reverse.1 hl) with rfl | hl
      · exact within
      · have := (List.pairwise_cons.1 decreasing.2.1).1 l hl
        omega
    rw [split, List.reverse_append, List.filter_append, closed_none, kept, if_neg (by omega),
      List.append_nil, List.append_nil]

/-- **The levels are column 0 and the widths of the lines whose scopes are open.** -/
theorem Reached.levels_eq (h : Reached o lines out s) :
    s.levels.reverse = 0 :: (openLines o.tabWidth 0 lines).map (·.width o.tabWidth) := by
  induction h with
  | start => rfl
  | @next lines _ s line _ levels before t ih =>
    have nonneg : 0 ≤ line.width o.tabWidth := (t.sound before.sound).width_nonneg
    rw [CodeLine.levels_state, t.levels_eq before.sound, ih, before.width_eq_lastWidth,
      openLines_append_singleton, List.map_append, List.filter_cons_of_pos (by simpa), List.filter_map]
    by_cases right : lastWidth o.tabWidth 0 lines < line.width o.tabWidth
    · simp [right, Function.comp_def]
    · simp [right, Function.comp_def]

theorem Turns.countKind_dedent (h : s.Sound) (t : Turns o s line turn levels) :
    countKind .dedent turn.tokens = s.levels.countP (line.width o.tabWidth < ·) := by
  cases t with
  | enter right =>
    have none : s.levels.countP (line.width o.tabWidth < ·) = 0 := by
      refine List.countP_eq_zero.2 fun level hl => ?_
      have := h.le_width level hl
      simp only [decide_eq_true_eq]
      omega
    rw [none]
    rfl
  | @leave closed outer level left split right within =>
    have decreasing := h.decreasing
    rw [split, List.pairwise_append] at decreasing
    have all : closed.countP (line.width o.tabWidth < ·) = closed.length :=
      List.countP_eq_length.2 fun l hl => decide_eq_true (right l hl)
    have none : (level :: outer).countP (line.width o.tabWidth < ·) = 0 := by
      refine List.countP_eq_zero.2 fun l hl => ?_
      simp only [decide_eq_true_eq]
      rcases List.mem_cons.1 hl with rfl | hl
      · omega
      · have := (List.pairwise_cons.1 decreasing.2.1).1 l hl
        omega
    rw [split, List.countP_append, all, none]
    simp

theorem Reached.countKind_dedent (h : Reached o lines out s) (t : Turns o s line turn levels) :
    countKind .dedent turn.tokens =
      (openLines o.tabWidth 0 lines).countP (line.width o.tabWidth < ·.width o.tabWidth) := by
  have nonneg : 0 ≤ line.width o.tabWidth := (t.sound h.sound).width_nonneg
  rw [t.countKind_dedent h.sound, ← List.countP_reverse, h.levels_eq,
    List.countP_cons_of_neg (by simpa using nonneg), List.countP_map]
  rfl

/-- Code lines lead to one place only. -/
theorem Reached.unique {out' : Emission} {s' : State} (h : Reached o lines out s)
    (h' : Reached o lines out' s') : out = out' ∧ s = s' := by
  have same := h.runLines_eq.symm.trans h'.runLines_eq
  exact ⟨congrArg Prod.fst same, Option.some.inj (congrArg Prod.snd same)⟩

/-! ### The first line -/

/-- The first code line of a source stands to the right of column 0. -/
def startsIndented (tab : Int) (source : List Char) : Bool :=
  (codeLines source).head?.any (0 < ·.width tab)

/-- A source without code lines only ends; any other begins with its first code line, or with the opening of
a scope if that is indented. -/
theorem exists_tokens_run (h : 0 ≤ o.tabWidth) (source : List Char) :
    (codeLines source = [] ∧ (run o source).tokens = [.endOfFile ((Text.lines source).length + 1)]) ∨
      ∃ line rest more, codeLines source = line :: rest ∧
        (run o source).tokens =
          (if startsIndented o.tabWidth source then [.indent line.number] else []) ++
            (line.tokens o ++ more) := by
  obtain ⟨out, s, reached, whole⟩ := exists_run h source
  cases lines_eq : codeLines source with
  | nil =>
    rw [lines_eq] at reached
    obtain ⟨rfl, rfl⟩ := reached.unique .start
    exact .inl ⟨rfl, by rw [whole]; rfl⟩
  | cons line rest =>
    have indented : startsIndented o.tabWidth source = decide (0 < line.width o.tabWidth) := by
      simp [startsIndented, lines_eq]
    rw [lines_eq, ← List.nil_append (line :: rest)] at reached
    obtain ⟨out₁, s₁, turn, levels, out₂, before, t, rfl⟩ := reached.exists_turns
    obtain ⟨rfl, rfl⟩ := before.unique .start
    refine .inr ⟨line, rest, out₂.tokens ++ closing ((Text.lines source).length + 1) s.levels, rfl, ?_⟩
    have turn_eq : turn.tokens = if 0 < line.width o.tabWidth then [.indent line.number] else [] := by
      cases t with
      | enter right => rw [if_pos right]
      | @leave closed outer level left split _ _ =>
        have not_right : ¬ 0 < line.width o.tabWidth := by simpa using left
        have nothing : closed = [] := by
          cases closed with
          | nil => rfl
          | cons _ _ => simp at split
        simp [not_right, nothing]
    simp [whole, indented, turn_eq]

theorem Turns.eq_enter (t : Turns o s line turn levels) (right : s.width < line.width o.tabWidth) :
    turn.tokens = [.indent line.number] ∧ levels = line.width o.tabWidth :: s.levels := by
  cases t with
  | enter _ => exact ⟨rfl, rfl⟩
  | leave left _ _ _ => omega

theorem Turns.right_of_opens (t : Turns o s line turn levels) {u : Token} (hu : u ∈ turn.tokens)
    (opens : u.kind = .indent) : s.width < line.width o.tabWidth := by
  cases t with
  | enter right => exact right
  | leave _ _ _ _ =>
    rw [List.eq_of_mem_replicate hu] at opens
    cases opens

theorem Reached.eq_indent (h : Reached o lines out s) {t : Token} (ht : t ∈ out.tokens)
    (opens : t.kind = .indent) : t = .indent t.line := by
  induction h with
  | start => cases ht
  | @next _ _ _ line _ _ _ turns ih =>
    simp only [Emission.tokens_append, CodeLine.tokens_emission, List.mem_append] at ht
    rcases ht with ht | ht | ht
    · exact ih ht
    · rw [(turns.eq_enter (turns.right_of_opens ht opens)).1, List.mem_singleton] at ht
      rw [ht]
      rfl
    · exact absurd opens (CodeLine.kind_ne_of_mem_tokens (by decide) (by decide) ht)

theorem eq_indent_of_mem_run (h : 0 ≤ o.tabWidth) {source : List Char} {t : Token}
    (ht : t ∈ (run o source).tokens) (opens : t.kind = .indent) : t = .indent t.line := by
  obtain ⟨out, s, reached, whole⟩ := exists_run h source
  rw [whole] at ht
  rcases List.mem_append.1 ht with ht | ht
  · exact reached.eq_indent ht opens
  · exact absurd opens (kind_ne_of_mem_closing (by decide) (by decide) ht)

/-! ### Opening and closing tokens -/

/-- What is opened among the tokens is closed among them, and nothing else is. -/
structure IsBalanced (tokens : List Token) : Prop where
  depth_eq : depth tokens = 0
  neverNegative : NeverNegative tokens

theorem NeverNegative.of_countKind {tokens : List Token} (h : countKind .dedent tokens = 0) :
    NeverNegative tokens := by
  have empty : NeverNegative [] := fun p hp => by simp [List.prefix_nil.1 hp]
  have appended : NeverNegative ([] ++ tokens) := empty.append (by simp [h])
  exact appended

/-- The token that closes what was opened right before the given tokens, with what stands before and after
it among them. -/
structure IsMatch (tokens between : List Token) (close : Token) (beyond : List Token) : Prop where
  split : tokens = between ++ close :: beyond
  closes : close.kind = .dedent
  balanced : IsBalanced between

/-- What is balanced before a token that closes is no longer than what is balanced before another. -/
theorem IsMatch.isPrefix {tokens between between' : List Token} {close close' : Token}
    {beyond beyond' : List Token} (h : IsMatch tokens between close beyond)
    (h' : IsMatch tokens between' close' beyond') : between' <+: between := by
  rcases split_append (h'.split.symm.trans h.split) with ⟨r, longer, -⟩ | ⟨r, longer, -⟩
  · -- the token that closes would stand within what is balanced
    have negative := h'.balanced.neverNegative (between ++ [close]) ⟨r, by simp [longer]⟩
    rw [depth_append, h.balanced.depth_eq, depth_cons, h.closes] at negative
    simp [Kind.change] at negative
  · exact ⟨r, longer.symm⟩

/-- One token only closes what was opened. -/
theorem IsMatch.unique {tokens between between' : List Token} {close close' : Token}
    {beyond beyond' : List Token} (h : IsMatch tokens between close beyond)
    (h' : IsMatch tokens between' close' beyond') :
    between = between' ∧ close = close' ∧ beyond = beyond' := by
  obtain rfl := (h'.isPrefix h).eq_of_length_le (h.isPrefix h').length_le
  obtain ⟨rfl, rfl⟩ := List.cons.inj (List.append_cancel_left (h.split.symm.trans h'.split))
  exact ⟨rfl, rfl, rfl⟩

/-! ### Where a scope is closed -/

/-- How the tokens go on after what was opened at a level has been balanced: they close it, right before the
first code line that stands to the left of the level, or else at the end of a source of so many lines. The
code lines up to there are `inside`; `rest` are all that come after the one that opened the scope. -/
inductive ClosedAt (o : Options) (count : Nat) (level : Int) (rest : List CodeLine) :
    (inside : List CodeLine) → Token → List Token → Prop
  /-- The scopes that were opened earlier are closed later. -/
  | line {inside outside : List CodeLine} {next : CodeLine} (n : Nat) (after : List Token)
      (split : rest = inside ++ next :: outside) (within : ∀ l ∈ inside, level ≤ l.width o.tabWidth)
      (left : next.width o.tabWidth < level) :
      ClosedAt o count level rest inside (.dedent next.number)
        (List.replicate n (.dedent next.number) ++ (next.tokens o ++ after))
  | ending (n : Nat) (within : ∀ l ∈ rest, level ≤ l.width o.tabWidth) :
      ClosedAt o count level rest rest (.dedent (count + 1))
        (List.replicate n (.dedent (count + 1)) ++ [.endOfFile (count + 1)])

theorem Reached.exists_last (h : Reached o (lines ++ [line]) out s) :
    ∃ out₁ s₁ turn levels, Reached o lines out₁ s₁ ∧ Turns o s₁ line turn levels ∧
      out = out₁ ++ line.emission o turn ∧ s = line.state o levels := by
  generalize whole : lines ++ [line] = all at h
  cases h with
  | start => simp at whole
  | next before t =>
    obtain ⟨rfl, rfl⟩ := List.append_singleton_inj.1 whole
    exact ⟨_, _, _, _, before, t, rfl, rfl⟩

/-- A line that does not stand to the left of a level leaves it, and closes none but inner scopes. -/
theorem Turns.keeps {inner outer : List Int} {level : Int} (t : Turns o s line turn levels)
    (split : s.levels = inner ++ level :: outer) (right : level ≤ line.width o.tabWidth) :
    (∃ inner', levels = inner' ++ level :: outer ∧ depth turn.tokens = (inner'.length : Int) - inner.length) ∧
      countKind .dedent turn.tokens ≤ inner.length := by
  cases t with
  | enter _ => 
    refine ⟨⟨line.width o.tabWidth :: inner, by rw [split, List.cons_append], ?_⟩, Nat.zero_le _⟩
    have one : depth [Token.indent line.number] = 1 := rfl
    rw [one, List.length_cons]
    omega
  | @leave closed outer' level' _ split' beyond _ =>
    have not_closed : level ∉ closed := fun mem => by
      have := beyond level mem
      omega
    obtain ⟨inner', inner_eq, levels_eq⟩ : ∃ inner', inner = closed ++ inner' ∧
        level' :: outer' = inner' ++ level :: outer := by
      rcases List.append_eq_append_iff.1 (split'.symm.trans split) with ⟨r, hi, hr⟩ | ⟨r, hc, hr⟩
      · exact ⟨r, hi, hr⟩
      · cases r with
        | nil => exact ⟨[], by simpa using hc.symm, hr.symm⟩
        | cons l r => 
          obtain ⟨rfl, -⟩ := List.cons.inj hr
          exact absurd (by simp [hc]) not_closed
    refine ⟨⟨inner', levels_eq, ?_⟩, ?_⟩
    · rw [depth_replicate_dedent, inner_eq, List.length_append]
      omega
    · simp [inner_eq]

/-- A line that stands to the left of a level closes the scope that was opened there. -/
theorem Turns.closes {inner outer : List Int} {level : Int} (h : s.Sound) (t : Turns o s line turn levels)
    (split : s.levels = inner ++ level :: outer) (left : line.width o.tabWidth < level) :
    ∃ n, turn.tokens = List.replicate (inner.length + (n + 1)) (.dedent line.number) := by
  have count := t.countKind_dedent h
  have all : inner.countP (line.width o.tabWidth < ·) = inner.length := by
    have decreasing := h.decreasing
    rw [split, List.pairwise_append] at decreasing
    refine List.countP_eq_length.2 fun l hl => decide_eq_true ?_
    have := decreasing.2.2 l hl level List.mem_cons_self
    omega
  rw [split, List.countP_append, all, List.countP_cons_of_pos (by simpa using left)] at count
  cases t with
  | enter right =>
    have := h.le_width level (by simp [split])
    omega
  | @leave closed _ _ _ _ _ _ =>
    rw [countKind_replicate_dedent, if_pos rfl] at count
    exact ⟨_, by rw [count]⟩

/-- **Inside a scope**: as long as no line stands to the left of its level, the level stays, and the tokens
since the scope was opened have closed none but the inner ones. -/
theorem Reached.inside {first inside : List CodeLine} (h : Reached o (first ++ line :: inside) out s)
    (right : lastWidth o.tabWidth 0 first < line.width o.tabWidth)
    (within : ∀ l ∈ inside, line.width o.tabWidth ≤ l.width o.tabWidth) :
    ∃ out₁ s₁ between inner outer, Reached o first out₁ s₁ ∧
      out.tokens = out₁.tokens ++ .indent line.number :: between ∧
      codes between = (line :: inside).map (·.token o) ∧ NeverNegative between ∧
      depth between = (inner : List Int).length ∧
      s.levels = inner ++ line.width o.tabWidth :: outer ∧ outer ≠ [] := by
  induction inside using List.reverseRecOn generalizing out s with
  | nil =>
    obtain ⟨out₁, s₁, turn, levels, before, t, rfl, rfl⟩ := h.exists_last
    obtain ⟨opened, rfl⟩ := t.eq_enter (before.width_eq_lastWidth ▸ right)
    refine ⟨out₁, s₁, line.tokens o, [], s₁.levels, before, ?_, by simp, ?_, by simp, rfl,
      before.sound.ne_nil⟩
    · simp [opened]
    · exact .of_countKind (CodeLine.countKind_tokens (by decide) (by decide) o line)
  | append_singleton inside next ih =>
    rw [← List.cons_append, ← List.append_assoc] at h
    obtain ⟨out₂, s₂, turn, levels, before, t, rfl, rfl⟩ := h.exists_last
    obtain ⟨out₁, s₁, between, inner, outer, first_reached, tokens_eq, codes_eq, neverNegative, depth_eq,
      levels_eq, outer_ne⟩ := ih before fun l hl => within l (List.mem_append_left _ hl)
    obtain ⟨⟨inner', levels_eq', turn_depth⟩, few⟩ := t.keeps levels_eq (within next (by simp))
    have no_code : codes turn.tokens = [] := codes_eq_nil fun _ hu => t.kind_ne_code hu
    refine ⟨out₁, s₁, between ++ (turn.tokens ++ next.tokens o), inner', outer, first_reached, ?_, ?_, ?_, ?_,
      levels_eq', outer_ne⟩
    · simp [tokens_eq]
    · simp [codes_eq, no_code]
    · refine neverNegative.append ?_
      rw [countKind_append, CodeLine.countKind_tokens (by decide) (by decide), depth_eq]
      omega
    · rw [depth_append, depth_append, depth_eq, turn_depth, CodeLine.depth_tokens]
      omega

/-- Closing the inner scopes balances what stands inside a scope. -/
theorem IsBalanced.of_inner {between : List Token} {n : Nat} (neverNegative : NeverNegative between)
    (depth_eq : depth between = n) (number : Int) :
    IsBalanced (between ++ List.replicate n (.dedent number)) where
  depth_eq := by
    rw [depth_append, depth_eq, depth_replicate_dedent]
    omega
  neverNegative := neverNegative.append (by simp [depth_eq])

/-- A scope that is opened is closed before the first later line to the left of its level, or at the end. -/
theorem Reached.exists_close {first rest : List CodeLine} (h : Reached o (first ++ line :: rest) out s)
    (right : lastWidth o.tabWidth 0 first < line.width o.tabWidth) (count : Nat) :
    ∃ out₁ s₁ between inside close beyond, Reached o first out₁ s₁ ∧
      out.tokens ++ closing (count + 1) s.levels =
        out₁.tokens ++ .indent line.number :: (between ++ close :: beyond) ∧
      IsMatch (between ++ close :: beyond) between close beyond ∧
      codes between = (line :: inside).map (·.token o) ∧
      ClosedAt o count (line.width o.tabWidth) rest inside close beyond := by
  have no_code (n : Nat) (number : Int) : codes (List.replicate n (.dedent number)) = [] :=
    codes_eq_nil fun u hu => by simp [List.eq_of_mem_replicate hu, Token.dedent]
  cases found : rest.find? (·.width o.tabWidth < line.width o.tabWidth) with
  | none =>
    have within : ∀ l ∈ rest, line.width o.tabWidth ≤ l.width o.tabWidth := by
      simpa using List.find?_eq_none.1 found
    obtain ⟨out₁, s₁, between, inner, outer, before, tokens_eq, codes_eq, neverNegative, depth_eq, levels_eq,
      outer_ne⟩ := h.inside right within
    obtain ⟨level, outer, rfl⟩ := List.exists_cons_of_ne_nil outer_ne
    have open_scopes : s.levels.length - 1 = inner.length + (outer.length + 1) := by
      rw [levels_eq, List.length_append, List.length_cons, List.length_cons]
      omega
    refine ⟨out₁, s₁, _, _, _, _, before, ?_,
      ⟨rfl, rfl, .of_inner neverNegative depth_eq (count + 1)⟩, ?_,
      .ending outer.length within⟩
    · simp [tokens_eq, closing, open_scopes, List.replicate_add, List.replicate_succ]
    · simp [codes_eq, no_code]
  | some next =>
    obtain ⟨left, inside, outside, rfl, not_left⟩ := List.find?_eq_some_iff_append.1 found
    have left : next.width o.tabWidth < line.width o.tabWidth := by simpa using left
    have within : ∀ l ∈ inside, line.width o.tabWidth ≤ l.width o.tabWidth := by simpa using not_left
    rw [← List.cons_append, ← List.append_assoc] at h
    obtain ⟨out₂, s₂, turn, levels, out₃, inside_reached, t, rfl⟩ := h.exists_turns
    obtain ⟨out₁, s₁, between, inner, outer, before, tokens_eq, codes_eq, neverNegative, depth_eq, levels_eq,
      -⟩ := inside_reached.inside right within
    obtain ⟨n, turn_eq⟩ := t.closes inside_reached.sound levels_eq left
    refine ⟨out₁, s₁, _, _, _, _, before, ?_,
      ⟨rfl, rfl, .of_inner neverNegative depth_eq next.number⟩, ?_,
      .line n (out₃.tokens ++ closing (count + 1) s.levels) rfl within left⟩
    · simp [tokens_eq, turn_eq, List.replicate_add, List.replicate_succ]
    · simp [codes_eq, no_code]

/-! ### Every line of a source -/

/-- How a code line stands among the tokens of its source, when the lines `first` come before it and the lines
`rest` after it: `turn` is what is given between the line before it and this one. -/
structure Placed (o : Options) (source : List Char) (first : List CodeLine) (line : CodeLine)
    (rest : List CodeLine) (before turn after : List Token) : Prop where
  tokens_eq : (run o source).tokens = before ++ turn ++ (line.tokens o ++ after)
  codes_before : codes before = first.map (·.token o)
  /-- The turn begins after the line before, or at the beginning of the source. -/
  ends : ∀ t ∈ before.getLast?, t.kind = .code ∨ t.kind = .newline
  kind_of_mem : ∀ t ∈ turn, t.kind = .indent ∨ t.kind = .dedent
  /-- A scope is opened exactly where a line stands to the right of the line before it. -/
  opens_iff : (∃ t ∈ turn, t.kind = .indent) ↔ lastWidth o.tabWidth 0 first < line.width o.tabWidth
  /-- A scope is closed for each line to the right of this one that opened a scope which none has closed. -/
  closes : countKind .dedent turn =
    (openLines o.tabWidth 0 first).countP (line.width o.tabWidth < ·.width o.tabWidth)
  /-- The token that opens a scope stands alone. -/
  opens_eq : lastWidth o.tabWidth 0 first < line.width o.tabWidth → turn = [.indent line.number]
  /-- A scope that is opened is closed. -/
  exists_close : lastWidth o.tabWidth 0 first < line.width o.tabWidth →
    ∃ between close beyond, IsMatch (line.tokens o ++ after) between close beyond
  /-- It is closed before the first later line to the left of this one, or at the end. -/
  closedAt : lastWidth o.tabWidth 0 first < line.width o.tabWidth →
    ∀ between close beyond, IsMatch (line.tokens o ++ after) between close beyond →
      ∃ inside, codes between = (line :: inside).map (·.token o) ∧
        ClosedAt o (Text.lines source).length (line.width o.tabWidth) rest inside close beyond

theorem Reached.kind_of_getLast (h : Reached o lines out s) :
    ∀ t ∈ out.tokens.getLast?, t.kind = .code ∨ t.kind = .newline := by
  cases h with
  | start => simp
  | @next _ _ _ line _ _ _ _ =>
    intro t ht
    have some_token : line.tokens o ≠ [] := by simp [CodeLine.tokens]
    rw [Emission.tokens_append, CodeLine.tokens_emission, ← List.append_assoc,
      List.getLast?_append_of_ne_nil _ some_token] at ht
    exact CodeLine.kind_of_mem_tokens (List.mem_of_getLast? ht)

/-- **What is opened and closed where**: every code line of a source opens a scope, closes scopes and has its
scope closed as the widths of the lines before and after it say. -/
theorem exists_placed (h : 0 < o.tabWidth) {source : List Char} {first rest : List CodeLine}
    (split : codeLines source = first ++ line :: rest) :
    ∃ before turn after, Placed o source first line rest before turn after := by
  obtain ⟨out, s, reached, whole⟩ := exists_run (Int.le_of_lt h) source
  rw [split] at reached
  obtain ⟨out₁, s₁, turn, levels, out₂, before, t, out_eq⟩ := reached.exists_turns
  have opened (right : lastWidth o.tabWidth 0 first < line.width o.tabWidth) :
      turn.tokens = [.indent line.number] := (t.eq_enter (before.width_eq_lastWidth ▸ right)).1
  have closed (right : lastWidth o.tabWidth 0 first < line.width o.tabWidth) :
      ∃ between inside close beyond,
        IsMatch (line.tokens o ++ (out₂.tokens ++ closing ((Text.lines source).length + 1) s.levels))
          between close beyond ∧
        codes between = (line :: inside).map (·.token o) ∧
        ClosedAt o (Text.lines source).length (line.width o.tabWidth) rest inside close beyond := by
    obtain ⟨out₁', s₁', between, inside, close, beyond, before', tokens_eq, matched, codes_eq, closedAt⟩ :=
      reached.exists_close right (Text.lines source).length
    obtain ⟨rfl, -⟩ := before.unique before'
    refine ⟨between, inside, close, beyond, ⟨?_, matched.closes, matched.balanced⟩, codes_eq, closedAt⟩
    simpa [out_eq, opened right] using tokens_eq
  refine ⟨out₁.tokens, turn.tokens, out₂.tokens ++ closing ((Text.lines source).length + 1) s.levels, ?_,
    before.codes_eq, before.kind_of_getLast, fun _ hu => t.kind_of_mem hu, ?_, before.countKind_dedent t,
    opened, fun right => ?_, fun right between close beyond matched => ?_⟩
  · simp [whole, out_eq]
  · constructor
    · rintro ⟨u, hu, opens⟩
      rw [← before.width_eq_lastWidth]
      exact t.right_of_opens hu opens
    · intro right
      exact ⟨.indent line.number, by simp [opened right], rfl⟩
  · obtain ⟨between, inside, close, beyond, matched, -, -⟩ := closed right
    exact ⟨between, close, beyond, matched⟩
  · obtain ⟨between', inside, close', beyond', matched', codes_eq, closedAt⟩ := closed right
    obtain ⟨rfl, rfl, rfl⟩ := matched.unique matched'
    exact ⟨inside, codes_eq, closedAt⟩

/-- A line that stands in none of the columns still open, between two that open scopes. -/
theorem exists_placed_misaligned :
    (0 : Int) < 4 ∧ codeLines "a\n\tb\n\t c\n  d\n e\n".toList =
        [⟨1, [], ['a']⟩] ++ ⟨2, ['\t'], ['b']⟩ ::
          [⟨3, ['\t', ' '], ['c']⟩, ⟨4, [' ', ' '], ['d']⟩, ⟨5, [' '], ['e']⟩] ∧
      ∃ before turn after, Placed { tabWidth := 4, newlines := true } "a\n\tb\n\t c\n  d\n e\n".toList
        [⟨1, [], ['a']⟩] ⟨2, ['\t'], ['b']⟩
        [⟨3, ['\t', ' '], ['c']⟩, ⟨4, [' ', ' '], ['d']⟩, ⟨5, [' '], ['e']⟩] before turn after :=
  ⟨by decide, by decide, exists_placed (o := { tabWidth := 4, newlines := true }) (by decide) (by decide)⟩

end Offside.Layout
