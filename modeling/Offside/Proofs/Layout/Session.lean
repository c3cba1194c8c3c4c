import Offside.Proofs.Layout.Alignment
import Offside.Proofs.Layout.Extent
import Offside.Proofs.Layout.Refinement

/-!
# Runs that end early, and sessions

A line to the left of column 0 ends a run: it closes every scope and column 0 with them, and then there is no level
to compare it with. No other line does so. What such a run leaves in a session reaches no later run, for the session
begins the next one by resetting it.

## The model

`Options.after` is what a step does to the options, so the options after any steps are known without the runs among
them (`Session.options_performAll`). `step_of_left` is what the line does that ends a run, and `EndsAt` what it leaves
behind; the lines before it lead somewhere (`exists_reached_of_nonneg`), as all lines do if none stands to the left of
column 0. That a session does the same token by token is `Session.answers_process`.

A run that comes to its end may still be refused: a misaligned line is reported in words, and a column of thousands of
digits cannot be written.
-/

namespace Offside.Layout

variable {o : Options} {s : State} {line : CodeLine} {first rest : List CodeLine} {source : List Char}

/-! ### The line that ends a run -/

theorem State.Sound.nonneg (h : s.Sound) {level : Int} (mem : level ∈ s.levels) : 0 ≤ level := by
  obtain ⟨inner, levels_eq⟩ := List.getLast?_eq_some_iff.1 h.base
  have decreasing := h.decreasing
  rw [levels_eq] at mem decreasing
  rcases List.mem_append.1 mem with inside | outermost
  · exact Int.le_of_lt ((List.pairwise_append.1 decreasing).2.2 level inside 0 (List.mem_singleton_self 0))
  · exact Int.le_of_eq (List.mem_singleton.1 outermost).symm

/-- A line to the left of column 0 closes all levels and finds none. -/
theorem step_of_left (h : s.Sound) (left : line.width o.tabWidth < 0) :
    step o s line = (⟨List.replicate s.levels.length (.dedent line.number), [], line.mixed o⟩, none) := by
  have width := h.width_nonneg
  have closed : ∀ level ∈ s.levels, decide (line.width o.tabWidth < level) = true := by
    intro level mem
    have := h.nonneg mem
    exact decide_eq_true (by omega)
  have not_right : ¬ s.width < line.width o.tabWidth := by omega
  have moved : line.width o.tabWidth < s.width := by omega
  simp only [step, if_neg not_right, if_pos moved, List.takeWhile_eq_self_iff.2 closed,
    List.dropWhile_eq_nil_iff.2 closed, List.map_const']

/-- What is left where a line has ended a run, after the lines before it gave `earlier` and left `levels` open. -/
structure EndsAt (line : CodeLine) (earlier : Emission) (levels : List Int) (left : Emission) : Prop where
  tokens_eq : left.tokens = earlier.tokens ++ List.replicate levels.length (.dedent line.number)
  /-- One more is closed than was opened. -/
  length_eq : (levels.length : Int) = depth earlier.tokens + 1
  unended : ∀ t ∈ left.tokens, t.kind ≠ .endOfFile
  scopes_eq : left.scopes = earlier.scopes
  misalignments_eq : misalignments left.diagnostics = misalignments earlier.diagnostics
  /-- What is reported of the line is at most that its margin is mixed. -/
  diagnostics_eq :
    left.diagnostics = earlier.diagnostics ∨ left.diagnostics = earlier.diagnostics ++ [⟨line.number, .mixed⟩]

/-- A run ends at the first line to the left of column 0, and no level is left, not even column 0. -/
theorem exists_endsAt (split : codeLines source = first ++ line :: rest)
    (inside : ∀ l ∈ first, 0 ≤ l.width o.tabWidth) (left : line.width o.tabWidth < 0) :
    ∃ earlier before, runLines o {} first = (earlier, some before) ∧ (run o source).finished = false ∧
      EndsAt line earlier before.levels (run o source).toEmission := by
  obtain ⟨earlier, before, reached⟩ := exists_reached_of_nonneg inside
  have whole : run o source =
      ⟨earlier ++ ⟨List.replicate before.levels.length (.dedent line.number), [], line.mixed o⟩, [], false⟩ := by
    rw [run, split, runLines_append, reached.runLines_eq]
    simp only [runLines, step_of_left reached.sound left]
  have open_scopes := reached.depth_eq
  refine ⟨earlier, before, reached.runLines_eq, ?_⟩
  rw [whole]
  refine ⟨rfl, rfl, by omega, fun t ht => ?_, List.append_nil _, ?_, ?_⟩
  · rcases List.mem_append.1 ht with ht | ht
    · exact reached.kind_ne_endOfFile t ht
    · rw [List.eq_of_mem_replicate ht]
      simp [Token.dedent]
  · rw [Emission.diagnostics_append, misalignments_append, CodeLine.misalignments_mixed, List.append_nil]
  · rw [Emission.diagnostics_append]
    unfold CodeLine.mixed
    split
    · exact .inr rfl
    · exact .inl (List.append_nil _)

theorem finished_run (inside : ∀ line ∈ codeLines source, 0 ≤ line.width o.tabWidth) :
    (run o source).finished = true := by
  obtain ⟨out, s, reached⟩ := exists_reached_of_nonneg inside
  rw [reached.run_eq]

/-- **A run ends early exactly when a line stands to the left of column 0.** -/
theorem finished_run_eq_false_iff :
    (run o source).finished = false ↔ ∃ line ∈ codeLines source, line.width o.tabWidth < 0 := by
  constructor
  · intro unfinished
    by_contra none
    have inside : ∀ line ∈ codeLines source, 0 ≤ line.width o.tabWidth := by
      intro line mem
      by_contra left
      exact none ⟨line, mem, Int.not_le.1 left⟩
    rw [finished_run inside] at unfinished
    cases unfinished
  · rintro ⟨line, mem, left⟩
    -- the first such line is where the run ends
    cases found : (codeLines source).find? (·.width o.tabWidth < 0) with
    | none => exact absurd (decide_eq_true left) (List.find?_eq_none.1 found line mem)
    | some line' =>
      obtain ⟨left', before, after, split, earlier⟩ := List.find?_eq_some_iff_append.1 found
      have inside : ∀ l ∈ before, 0 ≤ l.width o.tabWidth := by simpa using earlier
      obtain ⟨_, _, -, unfinished, -⟩ := exists_endsAt split inside (of_decide_eq_true left')
      exact unfinished

theorem diagnostics_run (o : Options) (source : List Char) :
    (run o source).diagnostics = (runLines o {} (codeLines source)).1.diagnostics := by
  rw [run]
  rcases runLines o {} (codeLines source) with ⟨out, _ | s⟩
  · rfl
  · exact List.append_nil _

/-! ### Sessions -/

/-- What a step of a session does to the options. -/
def Options.after (o : Options) : Session.Step → Options
  | .assign (.tabWidth columns) => { o with tabWidth := columns }
  | .assign (.newlines on) => { o with newlines := on }
  | .assign (.warnMixed on) => { o with warnMixed := on }
  | .assign (.levels _) | .process _ | .measure _ => o

namespace Session

theorem options_after (s : Session) (source : List Char) : (s.after source).options = s.options := by
  have answers := answers_process s source
  unfold after
  generalize process source s = result at answers
  cases answers with
  | told _ _ => rfl
  | endedEarly _ _ => rfl
  | interrupted _ options_eq _ => exact options_eq

theorem options_perform (s : Session) (t : Step) : (s.perform t).options = s.options.after t := by
  cases t with
  | process source => exact s.options_after source
  | measure line => rfl
  | assign a => cases a <;> rfl

/-- The options are those that were set last, whatever was laid out in between. -/
theorem options_performAll (s : Session) (steps : List Step) :
    (s.performAll steps).options = steps.foldl Options.after s.options := by
  unfold performAll
  induction steps generalizing s with
  | nil => rfl
  | cons t rest ih => rw [List.foldl_cons, List.foldl_cons, ih, options_perform]

/-- A session goes on to the first line to the left of column 0, if all that is to be said of the source can be
worded. -/
theorem takeLines_eq (writable : (run o source).IsWritable) (split : codeLines source = first ++ rest)
    {earlier : Emission} {before : State} (laid : runLines o {} first = (earlier, some before)) :
    takeLines 0 none first { options := o } = .ok () (add { options := o } earlier before.levels) := by
  have given : Gives { options := o } (runLines o {} first).1 ((runLines o {} first).2.map State.levels) _ :=
    gives_takeLines { options := o } 0 none first
  rw [laid] at given
  generalize takeLines 0 none first { options := o } = result at given
  cases given with
  | added _ _ => rfl
  | interrupted _ _ unwritable =>
    refine absurd (fun d hd => writable d ?_) unwritable
    rw [diagnostics_run, split, runLines_append, laid]
    exact List.mem_append_left _ hd

/-- **A run of a session depends on nothing but the source and the options as they were set last**, and those on
nothing but the assignments to them. It is refused when a line stands to the left of column 0, or when something is to
be said of a line before that which cannot be written; then the end of the source is not among the tokens left. If all
can be written, it is the first line to the left of column 0 at which the run ends. -/
theorem process_performAll {s : Session} {steps : List Step} (current : steps.foldl Options.after s.options = o)
    (source : List Char) :
    process source (s.performAll steps) = process source { options := o } ∧
    ((∃ e left, process source (s.performAll steps) = .error e left) ↔
      (∃ line ∈ codeLines source, line.width o.tabWidth < 0) ∨ ¬ (run o source).IsWritable) ∧
    (¬ (run o source).IsWritable →
      ∃ left, process source (s.performAll steps) = .error (.unwritable {}) left ∧ Unended left.tokens) ∧
    ((run o source).IsWritable →
      (0 ≤ o.tabWidth → process source (s.performAll steps) =
        .ok ((run o source).tokens, (run o source).scopes) ⟨(run o source).toEmission, o, [0]⟩) ∧
      (∀ e left, process source (s.performAll steps) = .error e left →
        e = .endedEarly .noLevel ∧ e.message = "list index out of range") ∧
      ∀ first line rest, codeLines source = first ++ line :: rest → (∀ l ∈ first, 0 ≤ l.width o.tabWidth) →
        line.width o.tabWidth < 0 → ∃ before left, takeLines 0 none first { options := o } = .ok () before ∧
          process source (s.performAll steps) = .error (.endedEarly .noLevel) left ∧ left.levels = [] ∧
          EndsAt line before.toEmission before.levels left.toEmission) := by
  have options_eq : (s.performAll steps).options = o := (s.options_performAll steps).trans current
  have same : process source (s.performAll steps) = process source { options := o } := by
    rw [process_eq, options_eq]
  have answers := answers_process { options := o } source
  rw [same]
  refine ⟨rfl, ?_, answers.exists_interrupted, fun writable => ⟨fun nonneg => ?_, ?_, ?_⟩⟩
  · rw [← finished_run_eq_false_iff]
    exact answers.refused_iff
  · obtain ⟨out, t, reached, whole⟩ := exists_run nonneg source
    have levels_eq : (run o source).levels.reverse = [0] := by rw [whole]; rfl
    have finished : (run o source).finished = true := by rw [whole]
    have told := answers.eq_told writable finished
    rwa [levels_eq] at told
  · intro e left refused
    rcases answers.refused_iff.1 ⟨e, left, refused⟩ with unfinished | unwritable
    · rw [answers.eq_endedEarly writable unfinished] at refused
      cases refused
      exact ⟨rfl, rfl⟩
    · exact absurd writable unwritable
  · intro first line rest split inside left
    obtain ⟨earlier, before, laid, unfinished, ends⟩ := exists_endsAt split inside left
    exact ⟨_, ⟨(run o source).toEmission, o, []⟩, takeLines_eq writable split laid,
      answers.eq_endedEarly writable unfinished, rfl, ends⟩

/-- A tab that goes back three columns, in a session that has failed before. -/
theorem process_performAll_left :
    ([.process "a\n \tb".toList, .assign (.newlines true), .assign (.tabWidth (-3)), .assign (.levels [7]),
        .process "\tx".toList].foldl Options.after { tabWidth := 8, warnMixed := true } =
      { tabWidth := -3, newlines := true, warnMixed := true }) ∧
    (run { tabWidth := -3, newlines := true, warnMixed := true } "a\n  b\n \tc\nd".toList).IsWritable ∧
    ∃ before left, takeLines 0 none [⟨1, [], ['a']⟩, ⟨2, [' ', ' '], ['b']⟩]
          { options := { tabWidth := -3, newlines := true, warnMixed := true } } = .ok () before ∧
      process "a\n  b\n \tc\nd".toList (({ options := { tabWidth := 8, warnMixed := true } } : Session).performAll
        [.process "a\n \tb".toList, .assign (.newlines true), .assign (.tabWidth (-3)), .assign (.levels [7]),
          .process "\tx".toList]) = .error (.endedEarly .noLevel) left ∧ left.levels = [] ∧
      EndsAt ⟨3, [' ', '\t'], ['c']⟩ before.toEmission before.levels left.toEmission := by
  have current : [.process "a\n \tb".toList, .assign (.newlines true), .assign (.tabWidth (-3)),
        .assign (.levels [7]), .process "\tx".toList].foldl Options.after { tabWidth := 8, warnMixed := true } =
      { tabWidth := -3, newlines := true, warnMixed := true } := rfl
  obtain ⟨-, -, -, written⟩ := process_performAll
    (s := { options := { tabWidth := 8, warnMixed := true } }) current "a\n  b\n \tc\nd".toList
  have split : codeLines "a\n  b\n \tc\nd".toList =
      [⟨1, [], ['a']⟩, ⟨2, [' ', ' '], ['b']⟩] ++ ⟨3, [' ', '\t'], ['c']⟩ :: [⟨4, [], ['d']⟩] := by decide
  have writable :
      (run { tabWidth := -3, newlines := true, warnMixed := true } "a\n  b\n \tc\nd".toList).IsWritable := by
    decide +kernel
  obtain ⟨-, -, ends⟩ := written writable
  exact ⟨current, writable, ends _ _ _ split (by decide) (by decide)⟩

/-- Where a tab is as wide as the widest number that can be written, two tabs are wider. A line behind them that is
misaligned cannot be told of, so the source is refused although no line stands to the left of column 0, and the scope is
closed but the end of the source is not given. -/
theorem answer_performAll_wide :
    (∀ line ∈ codeLines "\t\t a\n\t\tb".toList, 0 ≤ line.width (5 * Int.pow 10 4299)) ∧
    (match process "\t\t a\n\t\tb".toList
        (({ options := {} } : Session).performAll [.assign (.tabWidth (5 * Int.pow 10 4299))]) with
      | .ok _ _ => none
      | .error e left => some (e, left.levels, left.tokens.map Token.kind)) =
        some (.unwritable {}, [0], [.indent, .code, .dedent]) := by
  decide +kernel

end Session

end Offside.Layout
