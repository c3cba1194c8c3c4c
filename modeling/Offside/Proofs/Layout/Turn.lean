import Offside.Layout.Run
import Mathlib.Data.List.Basic
import Mathlib.Data.List.Induction
import Mathlib.Data.List.TakeWhile

/-!
# Turns

What a code line does to the scopes around it. Before a line comes either the opening of one scope or the
closing of some, possibly of none; the rest of what the line gives is the same in all cases.

## The model

`Turns` says what happens between two code lines: it relates a state and a line to the turn, which is what
is given before the line itself, and to the levels after it. As long as the levels are `Sound` and no line
has a negative width, every line has a turn (`exists_turns`), `step` gives the turn and the line
(`step_of_turns`), and the levels stay sound (`Turns.sound`). `Reached` is what code lines one after the
other lead to, so that what holds of every run is proved by induction on it; `runLines` computes it
(`Reached.runLines_eq`), and so `run` gives what was reached and closes what is still open (`exists_run`).

The width of the line before is not the innermost level: after a line that stands in none of the columns
still open it is greater, so only `level ≤ width` is kept.
-/

namespace Offside.Layout

/-! ### Sound states -/

/-- The levels grow from column 0 to the innermost, and none lies to the right of the line before. -/
structure State.Sound (s : State) : Prop where
  /-- Innermost first, each level lies to the right of the next. -/
  decreasing : s.levels.Pairwise (· > ·)
  /-- The outermost level is column 0. -/
  base : s.levels.getLast? = some 0
  /-- The line before stands at the innermost level or to the right of it. -/
  le_width : ∀ level ∈ s.levels, level ≤ s.width

theorem State.sound_start : State.Sound {} := ⟨by simp, rfl, by simp⟩

theorem State.Sound.ne_nil {s : State} (h : s.Sound) : s.levels ≠ [] := by
  intro nil
  have := h.base
  rw [nil] at this
  cases this

/-- The innermost level and those around it. -/
theorem State.Sound.exists_cons {s : State} (h : s.Sound) : ∃ level outer, s.levels = level :: outer :=
  List.exists_cons_of_ne_nil h.ne_nil

theorem State.Sound.length_pos {s : State} (h : s.Sound) : 0 < s.levels.length :=
  List.length_pos_iff.2 h.ne_nil

theorem width_nonneg {tab : Int} (h : 0 ≤ tab) (line : List Char) : 0 ≤ Layout.width tab line := by
  rw [width_eq_count]
  have := Int.mul_nonneg h (Int.natCast_nonneg ((margin line).count '\t'))
  omega

/-! ### One line -/

/-- The token for the content of a code line. -/
def CodeLine.token (o : Options) (line : CodeLine) : Token :=
  .code line.content line.number (line.width o.tabWidth)

theorem CodeLine.kind_of_mem_tokens {o : Options} {line : CodeLine} {t : Token} (h : t ∈ line.tokens o) :
    t.kind = .code ∨ t.kind = .newline := by
  unfold CodeLine.tokens at h
  rcases List.mem_cons.1 h with rfl | h
  · exact .inl rfl
  · split at h
    · rw [List.mem_singleton.1 h]
      exact .inr rfl
    · cases h

theorem CodeLine.kind_ne_of_mem_tokens {kind : Kind} (hc : kind ≠ .code) (hn : kind ≠ .newline) {o : Options}
    {line : CodeLine} {t : Token} (h : t ∈ line.tokens o) : t.kind ≠ kind := by
  rcases kind_of_mem_tokens h with same | same
  · exact same ▸ hc.symm
  · exact same ▸ hn.symm

/-- What opens a scope comes before its line. -/
theorem CodeLine.mem_of_opens {o : Options} {line : CodeLine} {before : List Token} {t : Token}
    (h : t ∈ before ++ line.tokens o) (opens : t.kind = .indent) : t ∈ before :=
  (List.mem_append.1 h).resolve_right fun mem => kind_ne_of_mem_tokens (by decide) (by decide) mem opens

/-- The tokens for the contents of code lines. -/
def codes (tokens : List Token) : List Token := tokens.filter (·.kind == .code)

@[simp] theorem codes_nil : codes [] = [] := rfl

@[simp] theorem codes_append (first second : List Token) :
    codes (first ++ second) = codes first ++ codes second := List.filter_append ..

theorem codes_eq_nil {tokens : List Token} (h : ∀ t ∈ tokens, t.kind ≠ .code) : codes tokens = [] := by
  simpa [codes, List.filter_eq_nil_iff] using h

@[simp] theorem CodeLine.codes_tokens (o : Options) (line : CodeLine) :
    codes (line.tokens o) = [line.token o] := by
  unfold CodeLine.tokens
  split <;> rfl

/-- What a code line gives after its turn has been given. -/
def CodeLine.emission (o : Options) (line : CodeLine) (turn : Emission) : Emission :=
  ⟨turn.tokens ++ line.tokens o, turn.scopes, line.mixed o ++ turn.diagnostics⟩

@[simp] theorem CodeLine.tokens_emission (o : Options) (line : CodeLine) (turn : Emission) :
    (line.emission o turn).tokens = turn.tokens ++ line.tokens o := rfl

@[simp] theorem CodeLine.scopes_emission (o : Options) (line : CodeLine) (turn : Emission) :
    (line.emission o turn).scopes = turn.scopes := rfl

@[simp] theorem CodeLine.diagnostics_emission (o : Options) (line : CodeLine) (turn : Emission) :
    (line.emission o turn).diagnostics = line.mixed o ++ turn.diagnostics := rfl

/-- The state after a code line, within the given levels. -/
def CodeLine.state (o : Options) (line : CodeLine) (levels : List Int) : State :=
  ⟨levels, line.width o.tabWidth, some line.content⟩

@[simp] theorem CodeLine.levels_state (o : Options) (line : CodeLine) (levels : List Int) :
    (line.state o levels).levels = levels := rfl

@[simp] theorem CodeLine.width_state (o : Options) (line : CodeLine) (levels : List Int) :
    (line.state o levels).width = line.width o.tabWidth := rfl

@[simp] theorem CodeLine.header_state (o : Options) (line : CodeLine) (levels : List Int) :
    (line.state o levels).header = some line.content := rfl

/-- What happens before a code line, and the levels around it. -/
inductive Turns (o : Options) (s : State) (line : CodeLine) : Emission → List Int → Prop
  /-- The line stands to the right of the one before it and opens a scope. -/
  | enter (right : s.width < line.width o.tabWidth) :
      Turns o s line
        ⟨[.indent line.number],
          [⟨line.width o.tabWidth, line.number, classify (s.header.getD line.content)⟩], []⟩
        (line.width o.tabWidth :: s.levels)
  /-- The line closes the scopes opened to its right, possibly none, and stands in the next one out. If
  it has moved to the left but not to the level of that scope, it is misaligned. -/
  | leave {closed outer : List Int} {level : Int} (left : line.width o.tabWidth ≤ s.width)
      (split : s.levels = closed ++ level :: outer) (right : ∀ l ∈ closed, line.width o.tabWidth < l)
      (within : level ≤ line.width o.tabWidth) :
      Turns o s line
        ⟨List.replicate closed.length (.dedent line.number), [],
          if level = line.width o.tabWidth ∨ line.width o.tabWidth = s.width then []
          else [⟨line.number, .misaligned (line.width o.tabWidth) level⟩]⟩
        (level :: outer)

variable {o : Options} {s : State} {line : CodeLine} {turn : Emission} {levels : List Int}

theorem exists_turns (h : s.Sound) (nonneg : 0 ≤ line.width o.tabWidth) :
    ∃ turn levels, Turns o s line turn levels := by
  by_cases right : s.width < line.width o.tabWidth
  · exact ⟨_, _, .enter right⟩
  · have split := List.takeWhile_append_dropWhile (p := (line.width o.tabWidth < ·)) (l := s.levels)
    cases rest : s.levels.dropWhile (line.width o.tabWidth < ·) with
    | nil =>
      -- column 0 would have to be among the levels that are closed
      have base : (0 : Int) ∈ s.levels := List.mem_of_getLast? h.base
      have := List.dropWhile_eq_nil_iff.1 rest 0 base
      simp only [decide_eq_true_eq] at this
      omega
    | cons level outer =>
      rw [rest] at split
      refine ⟨_, _, .leave (by omega) split.symm (fun l hl => ?_) ?_⟩
      · simpa using List.mem_takeWhile_imp hl
      · have := List.head?_dropWhile_not (line.width o.tabWidth < ·) s.levels
        rw [rest] at this
        simpa using this

/-- A step gives the turn and then the line, and goes on from the line. -/
theorem step_of_turns (h : s.Sound) (t : Turns o s line turn levels) :
    step o s line = (line.emission o turn, some (line.state o levels)) := by
  cases t with
  | enter right => simp [step, right, CodeLine.emission, CodeLine.state]
  | @leave closed outer level left split right within =>
    have taken : (closed ++ level :: outer).takeWhile (line.width o.tabWidth < ·) = closed := by
      rw [List.takeWhile_append_of_pos (by simpa using right), List.takeWhile_cons_of_neg (by simpa),
        List.append_nil]
    have dropped : (closed ++ level :: outer).dropWhile (line.width o.tabWidth < ·) = level :: outer := by
      rw [List.dropWhile_append_of_pos (by simpa using right), List.dropWhile_cons_of_neg (by simpa)]
    by_cases same : line.width o.tabWidth = s.width
    · -- the line stands where the one before it stands, so no level lies to its right
      have none_closed : closed = [] := by
        refine List.eq_nil_iff_forall_not_mem.2 fun l hl => ?_
        have := h.le_width l (by rw [split]; exact List.mem_append_left _ hl)
        have := right l hl
        omega
      subst none_closed
      simp [step, same, split, CodeLine.emission, CodeLine.state]
    · have lt : line.width o.tabWidth < s.width := by omega
      have not_gt : ¬ s.width < line.width o.tabWidth := by omega
      simp only [step, if_neg not_gt, if_pos lt, split, taken, dropped, same, or_false]
      simp [CodeLine.emission, CodeLine.state, List.map_const']

/-- The levels after a turn are sound again. -/
theorem Turns.sound (h : s.Sound) (t : Turns o s line turn levels) : (line.state o levels).Sound := by
  cases t with
  | enter right =>
    refine ⟨?_, ?_, ?_⟩
    · refine List.pairwise_cons.2 ⟨fun level hl => ?_, h.decreasing⟩
      have := h.le_width level hl
      omega
    · obtain ⟨level, outer, hs⟩ := h.exists_cons
      have base := h.base
      rw [hs] at base
      simpa [hs] using base
    · intro level hl
      rcases List.mem_cons.1 hl with rfl | hl
      · exact Int.le_refl _
      · have := h.le_width level hl
        simp only [CodeLine.width_state]
        omega
  | @leave closed outer level left split right within =>
    have decreasing := h.decreasing
    have base := h.base
    rw [split] at decreasing base
    have kept := (List.pairwise_append.1 decreasing).2.1
    refine ⟨kept, ?_, ?_⟩
    · simpa [List.getLast?_append] using base
    · intro l hl
      rcases List.mem_cons.1 hl with rfl | hl
      · exact within
      · have := (List.pairwise_cons.1 kept).1 l hl
        simp only [CodeLine.width_state]
        omega

theorem Turns.kind_of_mem (t : Turns o s line turn levels) {u : Token} (h : u ∈ turn.tokens) :
    u.kind = .indent ∨ u.kind = .dedent := by
  cases t with
  | enter _ =>
    rw [List.mem_singleton.1 h]
    exact .inl rfl
  | leave _ _ _ _ =>
    rw [List.eq_of_mem_replicate h]
    exact .inr rfl

theorem Turns.kind_ne_code (t : Turns o s line turn levels) {u : Token} (h : u ∈ turn.tokens) :
    u.kind ≠ .code := by
  rcases t.kind_of_mem h with kind | kind <;> simp [kind]

/-! ### Many lines -/

/-- What code lines one after the other lead to: what they give, and the state after them. -/
inductive Reached (o : Options) : List CodeLine → Emission → State → Prop
  /-- Before the first line nothing is given. -/
  | start : Reached o [] {} {}
  /-- One more line takes its turn. -/
  | next {lines : List CodeLine} {out : Emission} {s : State} {line : CodeLine} {turn : Emission}
      {levels : List Int} (before : Reached o lines out s) (t : Turns o s line turn levels) :
      Reached o (lines ++ [line]) (out ++ line.emission o turn) (line.state o levels)

variable {lines : List CodeLine} {out : Emission}

/-- Every state that is reached is sound. -/
theorem Reached.sound (h : Reached o lines out s) : s.Sound := by
  induction h with
  | start => exact State.sound_start
  | next _ t ih => exact t.sound ih

theorem Reached.runLines_eq (h : Reached o lines out s) : runLines o {} lines = (out, some s) := by
  induction h with
  | start => rfl
  | next before t ih =>
    rw [runLines_append, ih]
    simp only [runLines, step_of_turns before.sound t]
    simp [Emission.append_def]

/-- Code lines none of which stands to the left of column 0 lead somewhere. -/
theorem exists_reached_of_nonneg {lines : List CodeLine} (h : ∀ line ∈ lines, 0 ≤ line.width o.tabWidth) :
    ∃ out s, Reached o lines out s := by
  induction lines using List.reverseRecOn with
  | nil => exact ⟨_, _, .start⟩
  | append_singleton before line ih =>
    obtain ⟨out, s, reached⟩ := ih fun l hl => h l (List.mem_append_left _ hl)
    obtain ⟨turn, levels, t⟩ := exists_turns reached.sound (h line (by simp))
    exact ⟨_, _, reached.next t⟩

theorem exists_reached (h : 0 ≤ o.tabWidth) (lines : List CodeLine) :
    ∃ out s, Reached o lines out s :=
  exists_reached_of_nonneg fun line _ => width_nonneg h line.margin

/-- The way to a state passes each of its lines: what the lines before it led to, then its turn. -/
theorem Reached.exists_turns {first rest : List CodeLine} (h : Reached o (first ++ line :: rest) out s) :
    ∃ out₁ s₁ turn levels out₂, Reached o first out₁ s₁ ∧ Turns o s₁ line turn levels ∧
      out = out₁ ++ line.emission o turn ++ out₂ := by
  generalize whole : first ++ line :: rest = lines at h
  induction h generalizing rest with
  | start => simp at whole
  | @next lines out s line' turn levels before t ih =>
    rcases rest.eq_nil_or_concat with rfl | ⟨rest, last, rfl⟩
    · obtain ⟨rfl, rfl⟩ := List.append_singleton_inj.1 whole
      exact ⟨out, s, turn, levels, {}, before, t, by simp [Emission.append_def]⟩
    · rw [List.concat_eq_append, ← List.cons_append, ← List.append_assoc] at whole
      obtain ⟨rfl, rfl⟩ := List.append_singleton_inj.1 whole
      obtain ⟨out₁, s₁, turn₁, levels₁, out₂, reached, t₁, rfl⟩ := ih rfl
      exact ⟨out₁, s₁, turn₁, levels₁, out₂ ++ last.emission o turn, reached, t₁,
        by rw [Emission.append_assoc _ out₂]⟩

theorem Reached.codes_eq (h : Reached o lines out s) : codes out.tokens = lines.map (·.token o) := by
  induction h with
  | start => rfl
  | @next _ _ _ _ turn _ _ t ih =>
    have none : codes turn.tokens = [] :=
      codes_eq_nil fun _ hu => t.kind_ne_code hu
    simp [ih, none]

theorem Reached.kind_ne_endOfFile (h : Reached o lines out s) : ∀ t ∈ out.tokens, t.kind ≠ .endOfFile := by
  induction h with
  | start => simp
  | next _ turns ih =>
    intro t ht
    simp only [Emission.tokens_append, CodeLine.tokens_emission, List.mem_append] at ht
    rcases ht with ht | ht | ht
    · exact ih t ht
    · rcases turns.kind_of_mem ht with h | h <;> simp [h]
    · exact CodeLine.kind_ne_of_mem_tokens (by decide) (by decide) ht

/-- The innermost scope that is left when all others are closed is column 0. -/
theorem State.Sound.drop_levels (h : s.Sound) : s.levels.drop (s.levels.length - 1) = [0] := by
  conv => lhs; rw [← List.dropLast_append_getLast? 0 h.base]
  simp

/-- At the end of a source what is still open is closed. -/
theorem Reached.run_eq {source : List Char} (h : Reached o (codeLines source) out s) :
    run o source = ⟨out ++ { tokens := closing ((Text.lines source).length + 1) s.levels }, [0], true⟩ := by
  rw [run, h.runLines_eq]
  simp only [h.sound.drop_levels]

/-- A whole source leads somewhere, and there its end closes what is open. -/
theorem exists_run (h : 0 ≤ o.tabWidth) (source : List Char) :
    ∃ out s, Reached o (codeLines source) out s ∧
      run o source = ⟨out ++ { tokens := closing ((Text.lines source).length + 1) s.levels }, [0], true⟩ := by
  obtain ⟨out, s, reached⟩ := exists_reached h (codeLines source)
  exact ⟨out, s, reached, reached.run_eq⟩

theorem kind_of_mem_closing {line : Int} {levels : List Int} {t : Token} (h : t ∈ closing line levels) :
    t.kind = .dedent ∨ t.kind = .endOfFile := by
  rcases List.mem_append.1 h with h | h
  · rw [List.eq_of_mem_replicate h]
    exact .inl rfl
  · rw [List.mem_singleton.1 h]
    exact .inr rfl

theorem kind_ne_of_mem_closing {kind : Kind} (hd : kind ≠ .dedent) (he : kind ≠ .endOfFile) {line : Int}
    {levels : List Int} {t : Token} (h : t ∈ closing line levels) : t.kind ≠ kind := by
  rcases kind_of_mem_closing h with same | same
  · exact same ▸ hd.symm
  · exact same ▸ he.symm

theorem kind_ne_code_of_mem_closing {line : Int} {levels : List Int} {t : Token}
    (h : t ∈ closing line levels) : t.kind ≠ .code :=
  kind_ne_of_mem_closing (by decide) (by decide) h

theorem codes_run (h : 0 ≤ o.tabWidth) (source : List Char) :
    codes (run o source).tokens = (codeLines source).map (·.token o) := by
  obtain ⟨out, s, reached, whole⟩ := exists_run h source
  have none : codes (closing ((Text.lines source).length + 1) s.levels) = [] :=
    codes_eq_nil fun _ hu => kind_ne_code_of_mem_closing hu
  simp [whole, reached.codes_eq, none]

end Offside.Layout
