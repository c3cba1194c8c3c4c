import Offside.Proofs.Layout.Alignment
import Offside.Proofs.Layout.Image

/-!
# What flags ask for

Two of the options are flags: one asks for tokens at the ends of lines, the other for reports of mixed margins. Both
only add to what is given without them. The first adds one token after each content and touches nothing but tokens;
the second adds its reports between those of misaligned lines and touches nothing but diagnostics. So neither bears
on the other, and the scopes are the same under all settings.

## The model

`Emission.flagged` says outright what is added to what is given without flags. It is kept by one step
(`Emission.flagged_append`), so it is what a run with flags gives (`toEmission_run`), and how the four settings
differ is read off from it. What is reported of a line is found among all reports by the number of the line, which
is why the step needs lines with ascending numbers.
-/

namespace Offside.Layout

/-! ### Additions -/

/-- The options without flags. -/
def Options.plain (o : Options) : Options := { tabWidth := o.tabWidth }

/-- A token, and the end of the line if it is the content of one. -/
def Token.ended (t : Token) : List Token :=
  t :: if t.kind = .code then [.newline t.line (t.column + t.payload.length)] else []

/-- What is reported of a line: first that its margin is mixed, then what else there is about it. -/
def CodeLine.reports (diagnostics : List Diagnostic) (line : CodeLine) : List Diagnostic :=
  (if ' ' ∈ line.margin ∧ '\t' ∈ line.margin then [⟨line.number, .mixed⟩] else []) ++
    diagnostics.filter (·.line = line.number)

/-- What is given for code lines, with all that the flags add. -/
def Emission.flagged (o : Options) (lines : List CodeLine) (out : Emission) : Emission :=
  ⟨if o.newlines then out.tokens.flatMap Token.ended else out.tokens, out.scopes,
    if o.warnMixed then lines.flatMap (CodeLine.reports out.diagnostics) else out.diagnostics⟩

theorem flatMap_ended_eq_self {tokens : List Token} (h : ∀ t ∈ tokens, t.kind ≠ .code) :
    tokens.flatMap Token.ended = tokens := by
  induction tokens with
  | nil => rfl
  | cons t rest ih =>
    have here : t.ended = [t] := by rw [Token.ended, if_neg (h t List.mem_cons_self)]
    rw [List.flatMap_cons, here, ih fun u hu => h u (List.mem_cons_of_mem t hu), List.singleton_append]

/-- Each content is followed by the end of its line, and by no other end. -/
theorem exists_newline_of_flatMap_ended {tokens before after : List Token} {c : Token}
    (none : ∀ t ∈ tokens, t.kind ≠ .newline) (split : tokens.flatMap Token.ended = before ++ c :: after)
    (code : c.kind = .code) :
    ∃ rest, after = .newline c.line (c.column + c.payload.length) :: rest ∧
      ∀ t ∈ rest.head?, t.kind ≠ .newline := by
  induction tokens generalizing before with
  | nil => simp at split
  | cons t tokens ih =>
    rw [List.flatMap_cons] at split
    rcases split_append split with ⟨r, ended, rfl⟩ | ⟨r, -, later⟩
    · have only : ∀ e ∈ if t.kind = .code then [Token.newline t.line (t.column + t.payload.length)] else [],
          e.kind = .newline := by
        split <;> simp [Token.newline]
      obtain ⟨-, rfl, rfl⟩ := eq_of_code only ended code
      refine ⟨tokens.flatMap Token.ended, by rw [if_pos code, List.singleton_append], fun u hu => ?_⟩
      cases tokens with
      | nil => cases hu
      | cons v tokens =>
        obtain rfl : v = u := Option.some.inj hu
        exact none v (by simp)
    · exact ih (fun u hu => none u (List.mem_cons_of_mem t hu)) later

/-! ### One line -/

variable {o : Options} {s : State} {line : CodeLine} {turn : Emission} {levels : List Int}
  {lines : List CodeLine} {out : Emission}

theorem CodeLine.tokens_of_plain (o : Options) (line : CodeLine) :
    line.tokens o =
      if o.newlines then (line.tokens o.plain).flatMap Token.ended else line.tokens o.plain := by
  unfold CodeLine.tokens
  split <;> rfl

theorem CodeLine.mixed_eq_reports (o : Options) (line : CodeLine) :
    line.mixed o = if o.warnMixed then line.reports [] else [] := by
  simp only [CodeLine.mixed, CodeLine.isMixed, CodeLine.reports, List.filter_nil, List.append_nil,
    Bool.and_eq_true, List.contains_iff_mem]
  by_cases warn : o.warnMixed <;> simp [warn]

theorem CodeLine.reports_append (first second : List Diagnostic) (line : CodeLine) :
    line.reports (first ++ second) = line.reports first ++ second.filter (·.line = line.number) := by
  simp only [reports, List.filter_append, List.append_assoc]

/-- What a turn reports is about its own line, and so comes after what is reported of the lines before. -/
theorem Turns.flatMap_reports (t : Turns o s line turn levels) (on : out.On (· ∈ lines.map CodeLine.number))
    (ascending : (lines ++ [line]).Pairwise (·.number < ·.number)) :
    (lines ++ [line]).flatMap (CodeLine.reports (out.diagnostics ++ turn.diagnostics)) =
      lines.flatMap (CodeLine.reports out.diagnostics) ++ (line.reports [] ++ turn.diagnostics) := by
  obtain ⟨not_before, -⟩ := number_notMem_of_pairwise ascending
  have earlier : lines.flatMap (CodeLine.reports (out.diagnostics ++ turn.diagnostics)) =
      lines.flatMap (CodeLine.reports out.diagnostics) := by
    refine List.flatMap_congr fun l hl => ?_
    have apart : l.number ≠ line.number := fun same => not_before (same ▸ List.mem_map_of_mem hl)
    rw [CodeLine.reports_append, filter_line_eq_nil (p := (· = line.number)) t.on.diagnostic apart, List.append_nil]
  have none := filter_line_eq_nil on.diagnostic not_before
  have own := filter_line_eq_self t.on.diagnostic
  rw [List.flatMap_append, List.flatMap_singleton, earlier, CodeLine.reports_append, own, CodeLine.reports, none,
    CodeLine.reports, List.filter_nil]

/-- **One more line adds under flags what it adds without them, and what they ask for.** -/
theorem Emission.flagged_append (on : out.On (· ∈ lines.map CodeLine.number)) (t : Turns o s line turn levels)
    (ascending : (lines ++ [line]).Pairwise (·.number < ·.number)) :
    (out ++ line.emission o.plain turn).flagged o (lines ++ [line]) = out.flagged o lines ++ line.emission o turn := by
  have turned : turn.tokens.flatMap Token.ended = turn.tokens :=
    flatMap_ended_eq_self fun _ hu => t.kind_ne_code hu
  have unmixed : line.mixed o.plain = [] := rfl
  have reported := t.flatMap_reports on ascending
  have tokens_eq := line.tokens_of_plain o
  have mixed_eq := line.mixed_eq_reports o
  simp only [flagged, append_def, CodeLine.emission, unmixed, List.nil_append, mk.injEq, true_and]
  constructor
  · by_cases newlines : o.newlines
    · rw [if_pos newlines] at tokens_eq
      rw [if_pos newlines, if_pos newlines, tokens_eq, List.flatMap_append, List.flatMap_append, turned]
    · rw [if_neg newlines] at tokens_eq
      rw [if_neg newlines, if_neg newlines, tokens_eq]
  · by_cases warn : o.warnMixed
    · rw [if_pos warn] at mixed_eq
      rw [if_pos warn, if_pos warn, mixed_eq, reported]
    · rw [if_neg warn] at mixed_eq
      rw [if_neg warn, if_neg warn, mixed_eq, List.nil_append]

/-! ### Whole sources -/

/-- What code lines lead to under flags is what they lead to without them, and what the flags ask for. -/
theorem Reached.exists_plain (h : Reached o lines out s) (ascending : lines.Pairwise (·.number < ·.number)) :
    ∃ plain, Reached o.plain lines plain s ∧ out = plain.flagged o lines := by
  induction h with
  | start => exact ⟨{}, .start, by simp [Emission.flagged]⟩
  | @next lines out s line turn levels before t ih =>
    obtain ⟨plain, reached, rfl⟩ := ih (List.pairwise_append.1 ascending).1
    have tab : o.plain.tabWidth = o.tabWidth := rfl
    exact ⟨_, reached.next (t.of_tabWidth tab), (Emission.flagged_append reached.on t ascending).symm⟩

/-- **A source gives under flags what it gives without them, and what the flags ask for.** -/
theorem toEmission_run (h : 0 ≤ o.tabWidth) (source : List Char) :
    (run o source).toEmission = (run o.plain source).toEmission.flagged o (codeLines source) := by
  obtain ⟨out, s, reached, whole⟩ := exists_run h source
  obtain ⟨plain, reached', rfl⟩ := reached.exists_plain (pairwise_number_codeLines source)
  have closed : (closing ((Text.lines source).length + 1) s.levels).flatMap Token.ended =
      closing ((Text.lines source).length + 1) s.levels :=
    flatMap_ended_eq_self fun _ ht => kind_ne_code_of_mem_closing ht
  rw [whole, reached'.run_eq]
  simp only [Emission.flagged, Emission.append_def, List.append_nil, List.flatMap_append, closed]
  congr 1
  split <;> rfl

theorem Reached.misalignments_eq (h : Reached o lines out s) (off : o.warnMixed = false) :
    misalignments out.diagnostics = out.diagnostics := by
  induction h with
  | start => rfl
  | @next lines out s line turn levels _ t ih =>
    have unmixed : line.mixed o = [] := by simp [CodeLine.mixed, off]
    simp only [Emission.diagnostics_append, CodeLine.diagnostics_emission, misalignments_append, unmixed,
      List.nil_append, ih, t.misalignments_eq]

theorem misalignments_run_of_warnMixed (h : 0 ≤ o.tabWidth) (off : o.warnMixed = false) (source : List Char) :
    misalignments (run o source).diagnostics = (run o source).diagnostics := by
  obtain ⟨out, s, reached, whole⟩ := exists_run h source
  rw [whole, Emission.diagnostics_append, List.append_nil, reached.misalignments_eq off]

/-- **Flags only add, and bear on nothing else.** The tokens for the ends of lines stand one after each content, and
without them the tokens are the same; reports of mixed margins stand each before what else is reported of the line,
and all else that is reported is that lines are misaligned, once for a line at most and in order. The scopes are the
same under all flags, the tokens do not depend on what is reported, and the reports do not depend on the tokens. -/
theorem run_flags (tab : TabWidth) (source : List Char) :
    (∀ newlines warnMixed, (run { tabWidth := tab.columns, newlines, warnMixed } source).scopes =
      (run { tabWidth := tab.columns } source).scopes) ∧
    (∀ newlines warnMixed, (run { tabWidth := tab.columns, newlines, warnMixed } source).tokens =
      (run { tabWidth := tab.columns, newlines } source).tokens) ∧
    (∀ warnMixed, tokensWithin (run { tabWidth := tab.columns, newlines := true, warnMixed } source).tokens =
      (run { tabWidth := tab.columns, warnMixed } source).tokens) ∧
    (∀ warnMixed before c after,
      (run { tabWidth := tab.columns, newlines := true, warnMixed } source).tokens = before ++ c :: after →
      c.kind = .code → ∃ rest, after = .newline c.line (c.column + c.payload.length) :: rest ∧
        ∀ t ∈ rest.head?, t.kind ≠ .newline) ∧
    (∀ newlines warnMixed, (run { tabWidth := tab.columns, newlines, warnMixed } source).diagnostics =
      (run { tabWidth := tab.columns, warnMixed } source).diagnostics) ∧
    (run { tabWidth := tab.columns, warnMixed := true } source).diagnostics =
      (codeLines source).flatMap (fun line =>
        (if ' ' ∈ line.margin ∧ '\t' ∈ line.margin then [⟨line.number, .mixed⟩] else []) ++
          (run { tabWidth := tab.columns } source).diagnostics.filter (·.line = line.number)) ∧
    (∀ d ∈ (run { tabWidth := tab.columns } source).diagnostics, d.cause.isMisaligned) ∧
    (run { tabWidth := tab.columns } source).diagnostics.Pairwise (·.line < ·.line) := by
  have nonneg : (0 : Int) ≤ tab.columns := Int.natCast_nonneg _
  have flagged (newlines warnMixed : Bool) :
      (run { tabWidth := tab.columns, newlines, warnMixed } source).toEmission =
        (run { tabWidth := tab.columns } source).toEmission.flagged
          { tabWidth := tab.columns, newlines, warnMixed } (codeLines source) := toEmission_run (by exact nonneg) source
  have unended : ∀ t ∈ (run { tabWidth := tab.columns } source).tokens, t.kind ≠ .newline :=
    kind_ne_newline_of_mem_run nonneg rfl
  have misaligned : misalignments (run { tabWidth := tab.columns } source).diagnostics =
      (run { tabWidth := tab.columns } source).diagnostics := misalignments_run_of_warnMixed nonneg rfl source
  refine ⟨?_, ?_, ?_, ?_, ?_, ?_, ?_, ?_⟩
  · intro newlines warnMixed
    rw [flagged newlines warnMixed]
    rfl
  · intro newlines warnMixed
    rw [flagged newlines warnMixed, flagged newlines false]
    rfl
  · intro warnMixed
    have same : ({ tabWidth := tab.columns, newlines := true, warnMixed } : Options).tabWidth =
        ({ tabWidth := tab.columns } : Options).tabWidth := rfl
    rw [tokensWithin_run nonneg same, flagged false warnMixed]
    exact tokensWithin_eq_self unended
  · intro warnMixed before c after split code
    rw [flagged true warnMixed] at split
    exact exists_newline_of_flatMap_ended unended split code
  · intro newlines warnMixed
    rw [flagged newlines warnMixed, flagged false warnMixed]
    rfl
  · rw [flagged false true]
    rfl
  · intro d hd
    rw [← misaligned] at hd
    exact (List.mem_filter.1 hd).2
  · rw [← misaligned]
    exact pairwise_misalignments_run nonneg source

/-- Both flags, on a line that is mixed and misaligned and on a line that is misaligned only. -/
theorem run_flags_mixed :
    (run { tabWidth := 4, newlines := true, warnMixed := true } "a\n\t\tb\n \tc\n  d\n".toList).tokens =
        [.code ['a'] 1 0, .newline 1 1, .indent 2, .code ['b'] 2 8, .newline 2 9, .dedent 3] ++
          .code ['c'] 3 5 :: [.newline 3 6, .code ['d'] 4 2, .newline 4 3, .endOfFile 5] ∧
      (∃ rest, [Token.newline 3 6, .code ['d'] 4 2, .newline 4 3, .endOfFile 5] = .newline 3 6 :: rest ∧
        ∀ t ∈ rest.head?, t.kind ≠ .newline) ∧
      (run { tabWidth := 4, warnMixed := true } "a\n\t\tb\n \tc\n  d\n".toList).diagnostics =
        [⟨3, .mixed⟩, ⟨3, .misaligned 5 0⟩, ⟨4, .misaligned 2 0⟩] := by
  obtain ⟨-, -, -, ended, -, reported, -, -⟩ := run_flags { columns := 4 } "a\n\t\tb\n \tc\n  d\n".toList
  have split : (run { tabWidth := 4, newlines := true, warnMixed := true }
      "a\n\t\tb\n \tc\n  d\n".toList).tokens =
        [.code ['a'] 1 0, .newline 1 1, .indent 2, .code ['b'] 2 8, .newline 2 9, .dedent 3] ++
          .code ['c'] 3 5 :: [.newline 3 6, .code ['d'] 4 2, .newline 4 3, .endOfFile 5] := by
    decide +kernel
  exact ⟨split, ended true _ _ _ split rfl, reported.trans (by decide +kernel)⟩

end Offside.Layout
