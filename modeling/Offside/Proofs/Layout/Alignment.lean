import Offside.Proofs.Layout.Nesting
import Offside.Proofs.Layout.Numbering

/-!
# Misaligned lines

A code line is reported to be misaligned by what is known while it is laid out: the width of the line before it and
the levels that are still open. What is reported can also be told from the layout when it is done. A line is
reported if it stands neither at the level of the innermost scope around it nor in the column of the line before it.
So nothing is reported just when all lines of a block are aligned.

## The model

`innermostLevel` is the level of the innermost scope that tokens leave open, read off the tokens and the scopes
alone; in a run it is the innermost of the levels kept (`Reached.head_levels`). `Turns.exists_level` says what a turn
reports in terms of that level, and since what is reported for a line has the number of that line, it is found
among all that is reported (`Passes.misalignments_eq`).

A line that stands in the column of the line before it is not reported, aligned or not: if the line before it was
misaligned, so is this one. So a source without a report has no misaligned line (`Reached.head_eq_width`), but the
reported lines need not be all that are misaligned.
-/

namespace Offside.Layout

/-! ### Levels told by tokens -/

/-- The cause is that a line stands in none of the columns still open. -/
def Cause.isMisaligned : Cause → Bool
  | .misaligned .. => true
  | .mixed => false

/-- The diagnostics of lines that stand in none of the columns still open. -/
def misalignments (diagnostics : List Diagnostic) : List Diagnostic := diagnostics.filter (·.cause.isMisaligned)

/-- The level of the innermost scope that tokens leave open, and column 0 if they leave none open. -/
def innermostLevel (scopes : List Scope) (tokens : List Token) : Int :=
  (((openScopes tokens).getLast?.bind (scopes[·]?)).map Scope.level).getD 0

/-- The column of the last content among tokens. -/
def lastColumn? (tokens : List Token) : Option Int := (codes tokens).getLast?.map Token.column

@[simp] theorem misalignments_append (first second : List Diagnostic) :
    misalignments (first ++ second) = misalignments first ++ misalignments second := List.filter_append ..

@[simp] theorem CodeLine.misalignments_mixed (o : Options) (line : CodeLine) : misalignments (line.mixed o) = [] := by
  unfold CodeLine.mixed
  split <;> rfl

/-- Misaligned lines are told by the name of the cause. -/
theorem mem_misalignments_iff {diagnostics : List Diagnostic} {d : Diagnostic} :
    d ∈ misalignments diagnostics ↔ d ∈ diagnostics ∧ d.cause.name = "dedent-misalignment" := by
  refine List.mem_filter.trans (and_congr_right fun _ => ?_)
  cases d.cause with
  | misaligned column nearest => exact iff_of_true rfl rfl
  | mixed => exact iff_of_false (by decide) (by decide)

theorem innermostLevel_append {scopes : List Scope} {tokens : List Token}
    (entered : countKind .indent tokens ≤ scopes.length) (more : List Scope) :
    innermostLevel (scopes ++ more) tokens = innermostLevel scopes tokens := by
  unfold innermostLevel
  cases last : (openScopes tokens).getLast? with
  | none => rfl
  | some k =>
    have lt := lt_of_mem_openScopes (List.mem_of_getLast? last)
    rw [Option.bind_some, Option.bind_some, List.getElem?_append_left (by omega)]

variable {o : Options} {s : State} {line : CodeLine} {turn : Emission} {levels : List Int}
  {lines first rest : List CodeLine} {out earlier later : Emission}

/-- **The innermost level kept by a run is that of the innermost open scope.** -/
theorem Reached.head_levels (h : Reached o lines out s) :
    s.levels.head? = some (innermostLevel out.scopes out.tokens) := by
  obtain ⟨level, outer, levels_eq⟩ := h.sound.exists_cons
  have last := congrArg List.getLast? h.levels_eq_map
  rw [List.getLast?_map, List.getLast?_reverse, levels_eq, List.head?_cons, Option.map_some] at last
  rw [levels_eq, List.head?_cons, innermostLevel, Option.some.injEq]
  rcases (openScopes out.tokens).eq_nil_or_concat with none | ⟨before, k, open_eq⟩
  · rw [none] at last
    rw [none]
    exact Option.some.inj (Option.some.inj last)
  · rw [List.concat_eq_append] at open_eq
    rw [open_eq, List.map_append, List.map_singleton, ← List.cons_append, List.getLast?_append,
      List.getLast?_singleton, Option.some_or, Option.some.injEq, List.getElem?_map] at last
    rw [open_eq, List.getLast?_append, List.getLast?_singleton, Option.some_or, Option.bind_some, ← last,
      Option.getD_some]

/-! ### One line -/

theorem State.Sound.head_nonneg (h : s.Sound) {level : Int} (head : s.levels.head? = some level) : 0 ≤ level := by
  obtain ⟨outer, levels_eq⟩ := List.head?_eq_some_iff.1 head
  have zero : (0 : Int) ∈ s.levels := List.mem_of_getLast? h.base
  have decreasing := h.decreasing
  rw [levels_eq] at zero decreasing
  rcases List.mem_cons.1 zero with same | outside
  · exact Int.le_of_eq same
  · exact Int.le_of_lt ((List.pairwise_cons.1 decreasing).1 0 outside)

/-- A line stands at the innermost level or to the right of it, and is reported if it has moved and is not at it. -/
theorem Turns.exists_level (t : Turns o s line turn levels) :
    ∃ level, levels.head? = some level ∧ level ≤ line.width o.tabWidth ∧
      turn.diagnostics = if level = line.width o.tabWidth ∨ line.width o.tabWidth = s.width then []
        else [⟨line.number, .misaligned (line.width o.tabWidth) level⟩] := by
  cases t with
  | enter _ => exact ⟨_, rfl, Int.le_refl _, by rw [if_pos (.inl rfl)]⟩
  | leave _ _ _ within => exact ⟨_, rfl, within, rfl⟩

theorem Turns.misalignments_eq (t : Turns o s line turn levels) :
    misalignments turn.diagnostics = turn.diagnostics := by
  obtain ⟨level, -, -, reported⟩ := t.exists_level
  rw [reported]
  split <;> rfl

/-- Levels told by the tokens before a line, and by the scopes of all lines. -/
theorem Passes.head_levels (p : Passes o out first line rest earlier s turn levels later) :
    levels.head? = some (innermostLevel out.scopes (earlier.tokens ++ turn.tokens)) := by
  have next := p.reached.next p.turns
  have same : openScopes (earlier ++ line.emission o turn).tokens = openScopes (earlier.tokens ++ turn.tokens) := by
    rw [Emission.tokens_append, CodeLine.tokens_emission, ← List.append_assoc, openScopes_append,
      CodeLine.openScopesFrom_tokens]
  have entered : countKind .indent (earlier.tokens ++ turn.tokens) ≤
      (earlier ++ line.emission o turn).scopes.length := by
    rw [next.accounts.length_eq]
    simp
  have head := next.head_levels
  rw [CodeLine.levels_state] at head
  rw [head, p.out_eq, Emission.scopes_append _ later, innermostLevel_append entered, innermostLevel, same,
    innermostLevel]

theorem Passes.lastColumn?_eq (p : Passes o out first line rest earlier s turn levels later) :
    lastColumn? (earlier.tokens ++ turn.tokens) = first.getLast?.map (·.width o.tabWidth) := by
  have none : codes turn.tokens = [] := codes_eq_nil fun _ hu => p.turns.kind_ne_code hu
  rw [lastColumn?, codes_append, p.reached.codes_eq, none, List.append_nil, List.getLast?_map, Option.map_map]
  rfl

/-- Before the first line nothing could be misaligned, so it does not matter what it is compared with. -/
theorem Passes.aligned_or_level_iff (p : Passes o out first line rest earlier s turn levels later) {level : Int}
    (head : levels.head? = some level) (within : level ≤ line.width o.tabWidth) :
    (level = line.width o.tabWidth ∨ line.width o.tabWidth = s.width) ↔
      (level = line.width o.tabWidth ∨
        lastColumn? (earlier.tokens ++ turn.tokens) = some (line.width o.tabWidth)) := by
  have width_eq := p.reached.width_eq
  rw [p.lastColumn?_eq]
  cases last : first.getLast? with
  | some before =>
    rw [last] at width_eq
    simp [width_eq, eq_comm]
  | none =>
    rw [last] at width_eq
    have nonneg := (p.turns.sound p.reached.sound).head_nonneg head
    have zero : s.width = 0 := width_eq
    simp only [Option.map_none, reduceCtorEq, or_false]
    omega

theorem filter_line_eq_nil {p : Int → Prop} {diagnostics : List Diagnostic} (on : ∀ d ∈ diagnostics, p d.line) {n : Int}
    (apart : ¬p n) : diagnostics.filter (·.line = n) = [] := by
  refine List.filter_eq_nil_iff.2 fun d hd same => apart ?_
  rw [← of_decide_eq_true same]
  exact on d hd

theorem filter_line_eq_self {diagnostics : List Diagnostic} {n : Int} (on : ∀ d ∈ diagnostics, d.line = n) :
    diagnostics.filter (·.line = n) = diagnostics :=
  List.filter_eq_self.2 fun d hd => decide_eq_true (on d hd)

theorem number_notMem_of_pairwise (ascending : (first ++ line :: rest).Pairwise (·.number < ·.number)) :
    line.number ∉ first.map CodeLine.number ∧ line.number ∉ rest.map CodeLine.number := by
  obtain ⟨-, inner, above⟩ := List.pairwise_append.1 ascending
  constructor
  · intro mem
    obtain ⟨l, hl, number_eq⟩ := List.mem_map.1 mem
    have := above l hl line List.mem_cons_self
    omega
  · intro mem
    obtain ⟨l, hl, number_eq⟩ := List.mem_map.1 mem
    have := (List.pairwise_cons.1 inner).1 l hl
    omega

theorem Passes.misalignments_eq (p : Passes o out first line rest earlier s turn levels later)
    (ascending : (first ++ line :: rest).Pairwise (·.number < ·.number)) :
    (misalignments out.diagnostics).filter (·.line = line.number) = turn.diagnostics := by
  obtain ⟨not_first, not_rest⟩ := number_notMem_of_pairwise ascending
  have before : (misalignments earlier.diagnostics).filter (·.line = line.number) = [] :=
    filter_line_eq_nil (fun d hd => p.reached.on.diagnostic d (List.mem_filter.1 hd).1) not_first
  have after : (misalignments later.diagnostics).filter (·.line = line.number) = [] :=
    filter_line_eq_nil (fun d hd => p.later_on.diagnostic d (List.mem_filter.1 hd).1) not_rest
  simp [p.out_eq, before, after, filter_line_eq_self p.turns.on.diagnostic, p.turns.misalignments_eq]

/-! ### Many lines -/

/-- Each line is reported once at most, and lines are reported in order. -/
theorem Reached.pairwise_misalignments (h : Reached o lines out s)
    (ascending : lines.Pairwise (·.number < ·.number)) :
    (misalignments out.diagnostics).Pairwise (·.line < ·.line) := by
  induction h with
  | start => exact .nil
  | @next lines out s line turn levels before t ih =>
    obtain ⟨earlier, -, above⟩ := List.pairwise_append.1 ascending
    have single : turn.diagnostics.Pairwise (·.line < ·.line) := by
      obtain ⟨level, -, -, reported⟩ := t.exists_level
      rw [reported]
      split
      · exact .nil
      · exact List.pairwise_singleton _ _
    simp only [Emission.diagnostics_append, CodeLine.diagnostics_emission, misalignments_append,
      CodeLine.misalignments_mixed, List.nil_append, t.misalignments_eq]
    refine List.pairwise_append.2 ⟨ih earlier, single, fun d hd d' hd' => ?_⟩
    obtain ⟨l, hl, number_eq⟩ := List.mem_map.1 (before.on.diagnostic d (List.mem_filter.1 hd).1)
    have := above l hl line (List.mem_singleton_self line)
    rw [t.on.diagnostic d' hd']
    omega

/-- **As long as nothing is reported, every line stands at the innermost level.** -/
theorem Reached.head_eq_width (h : Reached o lines out s) (none : misalignments out.diagnostics = []) :
    s.levels.head? = some s.width := by
  induction h with
  | start => rfl
  | @next lines out s line turn levels before t ih =>
    rw [Emission.diagnostics_append, misalignments_append, List.append_eq_nil_iff] at none
    obtain ⟨none_before, none_here⟩ := none
    rw [CodeLine.diagnostics_emission, misalignments_append, CodeLine.misalignments_mixed, List.nil_append,
      t.misalignments_eq] at none_here
    rw [CodeLine.levels_state, CodeLine.width_state]
    cases t with
    | enter _ => rfl
    | @leave closed outer level left split right within =>
      by_cases aligned : level = line.width o.tabWidth ∨ line.width o.tabWidth = s.width
      · rcases aligned with same | same
        · rw [List.head?_cons, same]
        · -- the line before stands at the innermost level, and this one closes nothing
          obtain ⟨outer', levels_eq⟩ := List.head?_eq_some_iff.1 (ih none_before)
          have nothing : closed = [] := by
            refine List.eq_nil_iff_forall_not_mem.2 fun l hl => ?_
            have := before.sound.le_width l (by rw [split]; exact List.mem_append_left _ hl)
            have := right l hl
            omega
          rw [nothing, List.nil_append, levels_eq] at split
          rw [List.head?_cons, ← (List.cons.inj split).1, same]
      · rw [if_neg aligned] at none_here
        cases none_here

/-! ### Whole sources -/

theorem eq_of_code {t c : Token} {ends before after : List Token} (only : ∀ e ∈ ends, e.kind = .newline)
    (split : t :: ends = before ++ c :: after) (code : c.kind = .code) : before = [] ∧ c = t ∧ after = ends := by
  cases before with
  | nil =>
    obtain ⟨rfl, rfl⟩ := List.cons.inj split
    exact ⟨rfl, rfl, rfl⟩
  | cons u before =>
    have mem : c ∈ ends := by
      rw [(List.cons.inj split).2]
      simp
    rw [only c mem] at code
    cases code

/-- A content among the tokens of a source is that of a code line, and comes after the turn of that line. -/
theorem exists_passes_of_code (h : 0 ≤ o.tabWidth) {source : List Char} {before after : List Token} {c : Token}
    (split : (run o source).tokens = before ++ c :: after) (code : c.kind = .code) :
    ∃ out first line rest earlier s turn levels later, codeLines source = first ++ line :: rest ∧
      Passes o out first line rest earlier s turn levels later ∧ out.scopes = (run o source).scopes ∧
      out.diagnostics = (run o source).diagnostics ∧ before = earlier.tokens ++ turn.tokens ∧ c = line.token o := by
  obtain ⟨out, s, reached, whole⟩ := exists_run h source
  rw [whole] at split
  rcases split_append split with ⟨q, out_eq, -⟩ | ⟨q, -, ending⟩
  · obtain ⟨first, line, rest, earlier, s₁, turn, levels, later, r, r', lines_eq, passes, rfl, place, -⟩ :=
      reached.exists_place out_eq
    refine ⟨out, first, line, rest, earlier, s₁, turn, levels, later, lines_eq, passes, by simp [whole],
      by simp [whole], ?_⟩
    rcases split_append place with ⟨r₂, turn_eq, -⟩ | ⟨r₂, rfl, own⟩
    · exact absurd code (passes.turns.kind_ne_code (by simp [turn_eq]))
    · have only : ∀ e ∈ if o.newlines then
          [Token.newline line.number (line.width o.tabWidth + line.content.length)] else [],
          e.kind = .newline := by
        split <;> simp [Token.newline]
      obtain ⟨rfl, rfl, -⟩ := eq_of_code only own code
      exact ⟨by simp, rfl⟩
  · have mem : c ∈ closing ((Text.lines source).length + 1) s.levels := by
      have ending : closing ((Text.lines source).length + 1) s.levels = q ++ c :: after := ending
      simp [ending]
    exact absurd code (kind_ne_code_of_mem_closing mem)

/-- A line stands at the innermost level told by what is before it or to the right of it, and is reported if it stands
neither there nor in the column of the line before. -/
theorem reported_of_code (h : 0 ≤ o.tabWidth) {source : List Char} {before after : List Token} {c : Token}
    (split : (run o source).tokens = before ++ c :: after) (code : c.kind = .code) :
    innermostLevel (run o source).scopes before ≤ c.column ∧
      (misalignments (run o source).diagnostics).filter (·.line = c.line) =
        if c.column ≠ innermostLevel (run o source).scopes before ∧ lastColumn? before ≠ some c.column then
          [⟨c.line, .misaligned c.column (innermostLevel (run o source).scopes before)⟩]
        else [] := by
  obtain ⟨out, first, line, rest, earlier, s, turn, levels, later, lines_eq, passes, scopes_eq, diagnostics_eq, rfl,
    rfl⟩ := exists_passes_of_code h split code
  obtain ⟨level, head, within, reported⟩ := passes.turns.exists_level
  obtain rfl := Option.some.inj (head.symm.trans passes.head_levels)
  have ascending := pairwise_number_codeLines source
  rw [lines_eq] at ascending
  rw [← scopes_eq, ← diagnostics_eq]
  refine ⟨within, ?_⟩
  rw [CodeLine.token, Token.code, passes.misalignments_eq ascending, reported]
  by_cases aligned : innermostLevel out.scopes (earlier.tokens ++ turn.tokens) = line.width o.tabWidth ∨
      lastColumn? (earlier.tokens ++ turn.tokens) = some (line.width o.tabWidth)
  · rw [if_pos ((passes.aligned_or_level_iff head within).2 aligned), if_neg]
    rintro ⟨not_level, moved⟩
    exact aligned.elim (fun same => not_level same.symm) moved
  · rw [if_neg (mt (passes.aligned_or_level_iff head within).1 aligned), if_pos]
    rw [not_or] at aligned
    exact ⟨Ne.symm aligned.1, aligned.2⟩

/-- The wording names the line, its column and the level. -/
theorem message_of_filter_eq {diagnostics : List Diagnostic} {number column level : Int} {p : Prop} [Decidable p]
    (reported : diagnostics.filter (·.line = number) = if p then [⟨number, .misaligned column level⟩] else [])
    {d : Diagnostic} (hd : d ∈ diagnostics) (same : d.line = number) :
    d.message = "Indentation error at line " ++ toString number ++ ": dedent to column " ++ toString column ++
      " does not match any enclosing level (nearest is " ++ toString level ++ ")" := by
  have mem : d ∈ diagnostics.filter (·.line = number) := List.mem_filter.2 ⟨hd, decide_eq_true same⟩
  rw [reported] at mem
  split at mem
  · rw [List.mem_singleton.1 mem]
    rfl
  · cases mem

theorem exists_code_of_misalignment (h : 0 ≤ o.tabWidth) {source : List Char} {d : Diagnostic}
    (hd : d ∈ misalignments (run o source).diagnostics) : ∃ c ∈ codes (run o source).tokens, c.line = d.line := by
  obtain ⟨out, s, reached, whole⟩ := exists_run h source
  have mem : d ∈ out.diagnostics := by simpa [whole] using (List.mem_filter.1 hd).1
  obtain ⟨line, hl, number_eq⟩ := List.mem_map.1 (reached.on.diagnostic d mem)
  refine ⟨line.token o, ?_, number_eq⟩
  rw [codes_run h]
  exact List.mem_map_of_mem hl

theorem pairwise_misalignments_run (h : 0 ≤ o.tabWidth) (source : List Char) :
    (misalignments (run o source).diagnostics).Pairwise (·.line < ·.line) := by
  obtain ⟨out, s, reached, whole⟩ := exists_run h source
  simpa [whole] using reached.pairwise_misalignments (pairwise_number_codeLines source)

/-- Where nothing is reported, every line stands at the innermost level. -/
theorem column_eq_of_misalignments_eq_nil (h : 0 ≤ o.tabWidth) {source : List Char}
    (none : misalignments (run o source).diagnostics = []) {before after : List Token} {c : Token}
    (split : (run o source).tokens = before ++ c :: after) (code : c.kind = .code) :
    c.column = innermostLevel (run o source).scopes before := by
  obtain ⟨out, first, line, rest, earlier, s, turn, levels, later, -, passes, scopes_eq, diagnostics_eq, rfl, rfl⟩ :=
    exists_passes_of_code h split code
  rw [← diagnostics_eq, passes.out_eq, Emission.diagnostics_append, misalignments_append,
    List.append_eq_nil_iff] at none
  have aligned := (passes.reached.next passes.turns).head_eq_width none.1
  rw [CodeLine.levels_state, CodeLine.width_state, passes.head_levels, Option.some.injEq] at aligned
  rw [← scopes_eq, aligned]
  rfl

/-- **The lines reported as misaligned are those that stand neither at the innermost level nor in the column of the
line before.** None stands to the left of that level, each is reported once and in order, and the level that is named
is the innermost one. So nothing is reported just when every line stands at the innermost level. -/
theorem misalignments_run (h : 0 < o.tabWidth) (source : List Char) :
    (∀ before c after, (run o source).tokens = before ++ c :: after → c.kind = .code →
      innermostLevel (run o source).scopes before ≤ c.column ∧
      (misalignments (run o source).diagnostics).filter (·.line = c.line) =
        (if c.column ≠ innermostLevel (run o source).scopes before ∧ lastColumn? before ≠ some c.column then
          [⟨c.line, .misaligned c.column (innermostLevel (run o source).scopes before)⟩]
        else []) ∧
      ∀ d ∈ misalignments (run o source).diagnostics, d.line = c.line → d.message =
        "Indentation error at line " ++ toString c.line ++ ": dedent to column " ++ toString c.column ++
          " does not match any enclosing level (nearest is " ++
            toString (innermostLevel (run o source).scopes before) ++ ")") ∧
    (∀ d, d ∈ misalignments (run o source).diagnostics ↔
      d ∈ (run o source).diagnostics ∧ d.cause.name = "dedent-misalignment") ∧
    (∀ d ∈ misalignments (run o source).diagnostics, ∃ c ∈ codes (run o source).tokens, c.line = d.line) ∧
    (misalignments (run o source).diagnostics).Pairwise (·.line < ·.line) ∧
    (misalignments (run o source).diagnostics = [] ↔
      ∀ before c after, (run o source).tokens = before ++ c :: after → c.kind = .code →
        c.column = innermostLevel (run o source).scopes before) := by
  have nonneg := Int.le_of_lt h
  refine ⟨fun before c after split code => ?_, fun d => mem_misalignments_iff,
    fun d hd => exists_code_of_misalignment nonneg hd, pairwise_misalignments_run nonneg source,
    fun none before c after split code => column_eq_of_misalignments_eq_nil nonneg none split code, ?_⟩
  · obtain ⟨within, reported⟩ := reported_of_code nonneg split code
    exact ⟨within, reported, fun d hd same => message_of_filter_eq reported hd same⟩
  intro aligned
  refine List.eq_nil_iff_forall_not_mem.2 fun d hd => ?_
  obtain ⟨c, hc, line_eq⟩ := exists_code_of_misalignment nonneg hd
  obtain ⟨mem, code⟩ := List.mem_filter.1 hc
  obtain ⟨before, after, split⟩ := List.append_of_mem mem
  have code : c.kind = .code := by simpa using code
  have unreported := (reported_of_code nonneg split code).2
  rw [if_neg fun moved => moved.1 (aligned before c after split code)] at unreported
  exact List.filter_eq_nil_iff.1 unreported d hd (decide_eq_true line_eq.symm)

/-- Of two misaligned lines in the same column the first is reported. -/
theorem misalignments_run_repeated :
    (0 : Int) < 4 ∧
      (run { tabWidth := 4, warnMixed := true } "a\n\tb\n\t \tc\n  d\n  e\n f\n".toList).tokens =
        [.code ['a'] 1 0, .indent 2, .code ['b'] 2 4, .indent 3, .code ['c'] 3 9, .dedent 4, .dedent 4] ++
          .code ['d'] 4 2 :: [.code ['e'] 5 2, .code ['f'] 6 1, .endOfFile 7] ∧
      (misalignments (run { tabWidth := 4, warnMixed := true }
          "a\n\tb\n\t \tc\n  d\n  e\n f\n".toList).diagnostics).filter (·.line = 4) = [⟨4, .misaligned 2 0⟩] ∧
      (misalignments (run { tabWidth := 4, warnMixed := true }
          "a\n\tb\n\t \tc\n  d\n  e\n f\n".toList).diagnostics).filter (·.line = 5) = [] ∧
      ∃ d ∈ misalignments (run { tabWidth := 4, warnMixed := true }
          "a\n\tb\n\t \tc\n  d\n  e\n f\n".toList).diagnostics, d.message =
        "Indentation error at line 4: dedent to column 2 does not match any enclosing level (nearest is 0)" := by
  have judged := (misalignments_run (o := { tabWidth := 4, warnMixed := true }) (by decide)
    "a\n\tb\n\t \tc\n  d\n  e\n f\n".toList).1
  have tokens_eq : (run { tabWidth := 4, warnMixed := true } "a\n\tb\n\t \tc\n  d\n  e\n f\n".toList).tokens =
      [.code ['a'] 1 0, .indent 2, .code ['b'] 2 4, .indent 3, .code ['c'] 3 9, .dedent 4, .dedent 4] ++
        .code ['d'] 4 2 :: [.code ['e'] 5 2, .code ['f'] 6 1, .endOfFile 7] := by
    decide +kernel
  obtain ⟨-, first, worded⟩ := judged _ _ _ tokens_eq rfl
  have second := (judged ([.code ['a'] 1 0, .indent 2, .code ['b'] 2 4, .indent 3, .code ['c'] 3 9, .dedent 4,
    .dedent 4, .code ['d'] 4 2]) (.code ['e'] 5 2) [.code ['f'] 6 1, .endOfFile 7] tokens_eq rfl).2.1
  have reported : (⟨4, .misaligned 2 0⟩ : Diagnostic) ∈ misalignments (run { tabWidth := 4, warnMixed := true }
      "a\n\tb\n\t \tc\n  d\n  e\n f\n".toList).diagnostics := by decide +kernel
  exact ⟨by decide, tokens_eq, first.trans (by decide +kernel), second.trans (by decide +kernel), _, reported,
    worded _ reported rfl⟩

end Offside.Layout
