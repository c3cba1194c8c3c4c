import Offside.Layout.Session
import Offside.Proofs.Layout.Turn
import Offside.Proofs.Sequence

/-!
# Sessions and runs

A session is changed token by token while a source is laid out, and a line that is refused leaves it half changed. Yet
what it gives can be told without it: it is what the source gives by itself.

## The model

`Session.Gives` says what comes of an action that is to add something to a session: it is added, or the session is
refused. Two actions in a row add what each of them adds (`Gives.append`); so a code line adds what `step` says
(`gives_takeLine`), several code lines what `runLines` says (`gives_takeLines`), and a source what `run` says. A session
begins by resetting all that an earlier source has left (`process_eq`), so it does not matter which session it is.
-/

namespace Offside.Layout

namespace Session

variable {s : Session} {out out' : Emission} {levels : List Int} {levels? : Option (List Int)}

/-- The session with more given and these levels open. -/
def add (s : Session) (out : Emission) (levels : List Int) : Session :=
  { s with toEmission := s.toEmission ++ out, levels }

@[simp] theorem levels_add (s : Session) (out : Emission) (levels : List Int) :
    (s.add out levels).levels = levels := rfl

@[simp] theorem options_add (s : Session) (out : Emission) (levels : List Int) :
    (s.add out levels).options = s.options := rfl

@[simp] theorem add_add (s : Session) (out out' : Emission) (levels levels' : List Int) :
    (s.add out levels).add out' levels' = s.add (out ++ out') levels' := by
  simp [add, Emission.append_assoc]

theorem add_nothing (open_eq : s.levels = levels) : s.add {} levels = s := by
  simp [add, Emission.append_def, ← open_eq]

/-- The end of a source is not among the tokens. -/
def Unended (tokens : List Token) : Prop := ∀ t ∈ tokens, t.kind ≠ .endOfFile

theorem Unended.append {first second : List Token} (h : Unended first) (h' : Unended second) :
    Unended (first ++ second) := by
  intro t ht
  exact (List.mem_append.1 ht).elim (h t) (h' t)

/-- What comes of an action that is to add something and leave these levels open, unless there is no level for it. It is
interrupted by a diagnostic that is to be added and cannot be worded. -/
inductive Gives (s : Session) : Emission → Option (List Int) → EStateM.Result Refusal Session Unit → Prop
  | added {out : Emission} {levels : List Int} (unended : Unended out.tokens)
      (writable : ∀ d ∈ out.diagnostics, d.isWritable = true) : Gives s out (some levels) (.ok () (s.add out levels))
  | endedEarly {out : Emission} (unended : Unended out.tokens)
      (writable : ∀ d ∈ out.diagnostics, d.isWritable = true) :
    Gives s out none (.error (.endedEarly .noLevel) (s.add out []))
  | interrupted {out : Emission} {levels? : Option (List Int)} {left : Session} (options_eq : left.options = s.options)
      (unended : Unended s.tokens → Unended left.tokens) (unwritable : ¬ ∀ d ∈ out.diagnostics, d.isWritable = true) :
    Gives s out levels? (.error (.unwritable {}) left)

/-! ### Actions in a row -/

/-- What is added first comes before what is added then. -/
theorem Gives.after {result : EStateM.Result Refusal Session Unit} (unended : Unended out.tokens)
    (writable : ∀ d ∈ out.diagnostics, d.isWritable = true) (h : Gives (s.add out levels) out' levels? result) :
    Gives s (out ++ out') levels? result := by
  have all {out' : Emission} (writable' : ∀ d ∈ out'.diagnostics, d.isWritable = true) :
      ∀ d ∈ (out ++ out').diagnostics, d.isWritable = true := by
    intro d hd
    exact (List.mem_append.1 hd).elim (writable d) (writable' d)
  cases h with
  | added unended' writable' =>
    rw [add_add]
    exact .added (unended.append unended') (all writable')
  | endedEarly unended' writable' =>
    rw [add_add]
    exact .endedEarly (unended.append unended') (all writable')
  | interrupted options_eq unended' unwritable =>
    refine .interrupted options_eq (fun before => unended' (before.append unended)) fun writable' => unwritable ?_
    intro d hd
    exact writable' d (List.mem_append_right _ hd)

section

variable {first second : Action Unit}

/-- After an action that adds something, the next one starts with what this leaves. -/
theorem Gives.append (h : Gives s out (some levels) (first s))
    (h' : Gives (s.add out levels) out' levels? (second (s.add out levels))) :
    Gives s (out ++ out') levels? ((do first; second) s) := by
  generalize ended : first s = result at h
  cases h with
  | added unended writable =>
    rw [bind_of_ok ended]
    exact h'.after unended writable
  | interrupted options_eq unended unwritable =>
    rw [bind_of_error ended]
    refine .interrupted options_eq unended fun writable => unwritable ?_
    intro d hd
    exact writable d (List.mem_append_left _ hd)

/-- After an action that finds no level there is nothing more. -/
theorem Gives.append_none (h : Gives s out none (first s)) (second : Action Unit) :
    Gives s out none ((do first; second) s) := by
  generalize ended : first s = result at h
  cases h with
  | endedEarly unended writable =>
    rw [bind_of_error ended]
    exact .endedEarly unended writable
  | interrupted options_eq unended unwritable =>
    rw [bind_of_error ended]
    exact .interrupted options_eq unended unwritable

end

theorem Gives.nothing (s : Session) : Gives s {} (some s.levels) (.ok () s) := by
  have added : Gives s {} (some s.levels) (.ok () (s.add {} s.levels)) :=
    .added (List.forall_mem_nil _) (List.forall_mem_nil _)
  rwa [add_nothing rfl] at added

/-! ### One line -/

variable {o : Options} {line : CodeLine}

theorem gives_emit (s : Session) {t : Token} (kind : t.kind ≠ .endOfFile) :
    Gives s { tokens := [t] } (some s.levels) (emit t s) := by
  have emitted : emit t s = .ok () (s.add { tokens := [t] } s.levels) := by
    simp [add, Emission.append_def]
    rfl
  rw [emitted]
  exact .added (by simpa [Unended] using kind) (List.forall_mem_nil _)

theorem gives_report (s : Session) (d : Diagnostic) : Gives s { diagnostics := [d] } (some s.levels) (report d s) := by
  unfold report
  by_cases writable : d.isWritable = true
  · have reported : (modify fun s => { s with diagnostics := s.diagnostics ++ [d] } : Action Unit) s =
        .ok () (s.add { diagnostics := [d] } s.levels) := by
      simp [add, Emission.append_def]
      rfl
    rw [if_pos writable, reported]
    exact .added (List.forall_mem_nil _) (by simpa using writable)
  · rw [if_neg writable]
    exact .interrupted rfl id (by simpa using writable)

theorem gives_checkMargin (s : Session) (line : CodeLine) :
    Gives s { diagnostics := line.mixed s.options } (some s.levels) (checkMargin line s) := by
  change Gives s _ _
    ((if s.options.warnMixed && line.isMixed then report ⟨line.number, .mixed⟩ else pure () : Action Unit) s)
  unfold CodeLine.mixed
  split
  · exact gives_report s _
  · exact .nothing s

theorem gives_checkLevel (s : Session) (line : CodeLine) (w level : Int) :
    Gives s { diagnostics := if level = w then [] else [⟨line.number, .misaligned w level⟩] } (some s.levels)
      (checkLevel line w level s) := by
  unfold checkLevel
  by_cases same : level = w
  · rw [if_pos same, if_neg (not_not_intro same)]
    exact .nothing s
  · rw [if_neg same, if_pos same]
    exact gives_report s _

theorem gives_enterScope (s : Session) (header : Option (List Char)) (line : CodeLine) (w : Int) :
    Gives s ⟨[.indent line.number], [⟨w, line.number, classify (header.getD line.content)⟩], []⟩ (some (w :: s.levels))
      (enterScope header line w s) := by
  have entered : enterScope header line w s = .ok () (s.add ⟨[.indent line.number],
      [⟨w, line.number, classify (header.getD line.content)⟩], []⟩ (w :: s.levels)) := by
    simp [add, Emission.append_def]
    rfl
  rw [entered]
  exact .added (by simp [Unended, Token.indent]) (List.forall_mem_nil _)

theorem closeLevel_eq (s : Session) (number : Int) :
    closeLevel number s = .ok () (s.add { tokens := [.dedent number] } s.levels.tail) := by
  simp [add, Emission.append_def]
  rfl

/-- Levels right of a column are closed one by one, up to one that is not, if there is one. -/
theorem closeRight_eq (s : Session) (w number : Int) : closeRight w number s.levels s =
    match s.levels.dropWhile (w < ·) with
    | [] => .error (.endedEarly .noLevel)
        (s.add { tokens := (s.levels.takeWhile (w < ·)).map fun _ => .dedent number } [])
    | level :: outer => .ok level
        (s.add { tokens := (s.levels.takeWhile (w < ·)).map fun _ => .dedent number } (level :: outer)) := by
  generalize open_eq : s.levels = levels
  induction levels generalizing s with
  | nil => exact congrArg _ (add_nothing open_eq).symm
  | cons level outer ih =>
    by_cases right : w < level
    · have closed := closeLevel_eq s number
      rw [open_eq, List.tail_cons] at closed
      rw [closeRight, if_pos right, bind_of_ok closed, ih _ rfl, List.dropWhile_cons_of_pos (by simpa using right),
        List.takeWhile_cons_of_pos (by simpa using right)]
      cases outer.dropWhile (w < ·) <;> simp [Emission.append_def]
    · rw [closeRight, if_neg right, List.dropWhile_cons_of_neg (by simpa using right),
        List.takeWhile_cons_of_neg (by simpa using right)]
      exact congrArg _ (add_nothing open_eq).symm

theorem unended_dedents (closed : List Int) (number : Int) : Unended (closed.map fun _ => Token.dedent number) := by
  intro t ht
  obtain ⟨_, -, rfl⟩ := List.mem_map.1 ht
  simp [Token.dedent]

/-- What a line closes comes before it is reported. -/
theorem leaveScopes_eq (s : Session) (line : CodeLine) (w : Int) : leaveScopes line w s =
    match s.levels.dropWhile (w < ·) with
    | [] => .error (.endedEarly .noLevel)
        (s.add { tokens := (s.levels.takeWhile (w < ·)).map fun _ => .dedent line.number } [])
    | level :: outer => checkLevel line w level
        (s.add { tokens := (s.levels.takeWhile (w < ·)).map fun _ => .dedent line.number } (level :: outer)) := by
  have closed := closeRight_eq s w line.number
  change (closeRight w line.number s.levels >>= checkLevel line w) s = _
  cases found : s.levels.dropWhile (w < ·) with
  | nil =>
    rw [found] at closed
    exact bind_of_error closed _
  | cons level outer =>
    rw [found] at closed
    exact bind_of_ok closed _

theorem gives_leaveScopes_none {w : Int} (line : CodeLine) (found : s.levels.dropWhile (w < ·) = []) :
    Gives s { tokens := (s.levels.takeWhile (w < ·)).map fun _ => .dedent line.number } none
      (leaveScopes line w s) := by
  rw [leaveScopes_eq, found]
  exact .endedEarly (unended_dedents _ _) (List.forall_mem_nil _)

/-- A line that finds a level is reported if it does not stand there. -/
theorem gives_leaveScopes {w level : Int} {outer : List Int} (line : CodeLine)
    (found : s.levels.dropWhile (w < ·) = level :: outer) :
    Gives s ({ tokens := (s.levels.takeWhile (w < ·)).map fun _ => .dedent line.number } ++
        { diagnostics := if level = w then [] else [⟨line.number, .misaligned w level⟩] }) (some (level :: outer))
      (leaveScopes line w s) := by
  rw [leaveScopes_eq, found]
  exact Gives.after (unended_dedents _ _) (List.forall_mem_nil _) (gives_checkLevel _ line w level)

theorem gives_emitLine (s : Session) (line : CodeLine) :
    Gives s { tokens := line.tokens s.options } (some s.levels) (emitLine line (line.width s.options.tabWidth) s) := by
  have code := gives_emit s (t := .code line.content line.number (line.width s.options.tabWidth)) (by simp [Token.code])
  have split : (Emission.mk (line.tokens s.options) [] []) =
      { tokens := [.code line.content line.number (line.width s.options.tabWidth)] } ++
        { tokens := (line.tokens s.options).tail } := rfl
  rw [split]
  refine code.append ?_
  by_cases newlines : s.options.newlines = true
  · have ended : (line.tokens s.options).tail =
        [.newline line.number (line.width s.options.tabWidth + line.content.length)] := by
      rw [CodeLine.tokens, if_pos newlines, List.tail_cons]
    change Gives _ _ _ ((if s.options.newlines then emit _ else pure () : Action Unit) _)
    rw [if_pos newlines, ended]
    exact gives_emit _ (by simp [Token.newline])
  · have ended : (line.tokens s.options).tail = [] := by
      rw [CodeLine.tokens, if_neg newlines, List.tail_cons]
    change Gives _ _ _ ((if s.options.newlines then emit _ else pure () : Action Unit) _)
    rw [if_neg newlines, ended]
    exact .nothing _

/-- **What a code line adds to a session is what it gives by itself.** -/
theorem gives_takeLine (s : Session) (width : Int) (header : Option (List Char)) (line : CodeLine) :
    Gives s (step s.options ⟨s.levels, width, header⟩ line).1
      ((step s.options ⟨s.levels, width, header⟩ line).2.map State.levels) (takeLine width header line s) := by
  change Gives s _ _ ((do
    checkMargin line
    turn width header line (line.width s.options.tabWidth)
    emitLine line (line.width s.options.tabWidth)) s)
  have margin := gives_checkMargin s line
  unfold step turn
  by_cases right : width < line.width s.options.tabWidth
  · rw [if_pos right, if_pos right]
    have entered := gives_enterScope (s.add { diagnostics := line.mixed s.options } s.levels) header line
      (line.width s.options.tabWidth)
    have all := margin.append (entered.append (gives_emitLine _ line))
    simpa [Emission.append_def] using all
  · rw [if_neg right, if_neg right]
    by_cases left : line.width s.options.tabWidth < width
    · rw [if_pos left, if_pos left]
      cases found : s.levels.dropWhile (line.width s.options.tabWidth < ·) with
      | nil =>
        have closed := gives_leaveScopes_none (s := s.add { diagnostics := line.mixed s.options } s.levels) line found
        have all := margin.append (closed.append_none (emitLine line (line.width s.options.tabWidth)))
        simpa [Emission.append_def] using all
      | cons level outer =>
        have closed := gives_leaveScopes (s := s.add { diagnostics := line.mixed s.options } s.levels) line found
        have all := margin.append (closed.append (gives_emitLine _ line))
        simpa [Emission.append_def] using all
    · rw [if_neg left, if_neg left]
      have stayed : Gives (s.add { diagnostics := line.mixed s.options } s.levels) {} (some s.levels)
          ((pure () : Action Unit) (s.add { diagnostics := line.mixed s.options } s.levels)) := .nothing _
      have all := margin.append (stayed.append (gives_emitLine _ line))
      simpa [Emission.append_def] using all

/-! ### Many lines -/

/-- The line that was laid out is what the next is compared with. -/
theorem eq_of_step_eq_some {t t' : State} (h : (step o t line).2 = some t') :
    t' = ⟨t'.levels, line.width o.tabWidth, some line.content⟩ := by
  simp only [step] at h
  split at h
  · rw [← Option.some.inj h]
  · split at h
    · split at h
      · cases h
      · rw [← Option.some.inj h]
    · rw [← Option.some.inj h]

/-- **What code lines add to a session is what they give by themselves.** -/
theorem gives_takeLines (s : Session) (width : Int) (header : Option (List Char)) (lines : List CodeLine) :
    Gives s (runLines s.options ⟨s.levels, width, header⟩ lines).1
      ((runLines s.options ⟨s.levels, width, header⟩ lines).2.map State.levels) (takeLines width header lines s) := by
  induction lines generalizing s width header with
  | nil => exact .nothing s
  | cons line rest ih =>
    have here := gives_takeLine s width header line
    rw [runLines]
    rcases taken : step s.options ⟨s.levels, width, header⟩ line with ⟨out, _ | t⟩
    · rw [taken] at here
      exact here.append_none _
    · rw [taken] at here
      have next := ih (s.add out t.levels) (line.width s.options.tabWidth) (some line.content)
      rw [levels_add, options_add, ← eq_of_step_eq_some (congrArg Prod.snd taken)] at next
      change Gives s _ _ ((do
        takeLine width header line
        takeLines (line.width (← get).options.tabWidth) (some line.content) rest) s)
      exact here.append next

/-! ### A whole source -/

/-- All levels but the outermost are closed. -/
theorem closeAll_eq (s : Session) (number : Int) : closeAll number s.levels s = .ok () (s.add
    { tokens := List.replicate (s.levels.length - 1) (.dedent number) } (s.levels.drop (s.levels.length - 1))) := by
  generalize open_eq : s.levels = levels
  induction levels generalizing s with
  | nil => exact congrArg _ (add_nothing open_eq).symm
  | cons level outer ih =>
    cases outer with
    | nil => exact congrArg _ (add_nothing open_eq).symm
    | cons next outer =>
      have closed := closeLevel_eq s number
      rw [open_eq, List.tail_cons] at closed
      have rest := ih (s.add { tokens := [.dedent number] } (next :: outer)) rfl
      refine (bind_of_ok closed fun _ => closeAll number (next :: outer)).trans ?_
      rw [rest]
      simp [Emission.append_def, List.replicate_succ]

theorem finish_eq (s : Session) (last : Int) : finish last s = .ok (s.tokens ++ closing last s.levels, s.scopes)
    (s.add { tokens := closing last s.levels } (s.levels.drop (s.levels.length - 1))) := by
  refine (bind_of_ok (closeAll_eq s last) fun _ => do
    emit (.endOfFile last)
    return ((← get).tokens, (← get).scopes)).trans ?_
  have ended (t : Session) : (do emit (.endOfFile last); return ((← get).tokens, (← get).scopes) :
      Action (List Token × List Scope)) t = .ok (t.tokens ++ [.endOfFile last], t.scopes)
        { t with tokens := t.tokens ++ [.endOfFile last] } := rfl
  rw [ended]
  simp [closing, add, Emission.append_def]

theorem reverse_drop_length_sub_one (levels : List Int) :
    (levels.drop (levels.length - 1)).reverse = levels.drop (levels.length - 1) := by
  rcases levels.eq_nil_or_concat with rfl | ⟨inner, level, rfl⟩
  · rfl
  · simp

/-- Whatever an earlier source has left is reset. -/
theorem reset_eq (s : Session) : reset s = .ok () { options := s.options } := rfl

/-- **A source is laid out as in a session in which nothing has been laid out.** -/
theorem process_eq (s : Session) (source : List Char) : process source s = process source { options := s.options } := by
  rw [process, bind_of_ok (reset_eq s), bind_of_ok (reset_eq { options := s.options })]

end Session

/-- All diagnostics of a result can be worded. -/
def Result.IsWritable (r : Result) : Prop := ∀ d ∈ r.diagnostics, d.isWritable = true

instance (r : Result) : Decidable r.IsWritable :=
  inferInstanceAs (Decidable (∀ d ∈ r.diagnostics, d.isWritable = true))

namespace Session

/-- What a session answers to a source that gives a result by itself, and what it is left with. -/
inductive Answers (o : Options) (r : Result) : EStateM.Result Refusal Session (List Token × List Scope) → Prop
  | told (writable : r.IsWritable) (finished : r.finished = true) :
    Answers o r (.ok (r.tokens, r.scopes) ⟨r.toEmission, o, r.levels.reverse⟩)
  | endedEarly (writable : r.IsWritable) (unfinished : r.finished = false) :
    Answers o r (.error (.endedEarly .noLevel) ⟨r.toEmission, o, []⟩)
  | interrupted {left : Session} (unwritable : ¬ r.IsWritable) (options_eq : left.options = o)
      (unended : Unended left.tokens) : Answers o r (.error (.unwritable {}) left)

namespace Answers

variable {r : Result} {answer : EStateM.Result Refusal Session (List Token × List Scope)}

theorem refused_iff (h : Answers o r answer) :
    (∃ e left, answer = .error e left) ↔ r.finished = false ∨ ¬ r.IsWritable := by
  cases h with
  | told writable finished => simp [writable, finished]
  | endedEarly writable unfinished => simp [unfinished]
  | interrupted unwritable _ _ => simp [unwritable]

theorem exists_interrupted (h : Answers o r answer) (unwritable : ¬ r.IsWritable) :
    ∃ left, answer = .error (.unwritable {}) left ∧ Unended left.tokens := by
  cases h with
  | told writable _ => exact absurd writable unwritable
  | endedEarly writable _ => exact absurd writable unwritable
  | interrupted _ _ unended => exact ⟨_, rfl, unended⟩

theorem eq_told (h : Answers o r answer) (writable : r.IsWritable) (finished : r.finished = true) :
    answer = .ok (r.tokens, r.scopes) ⟨r.toEmission, o, r.levels.reverse⟩ := by
  cases h with
  | told _ _ => rfl
  | endedEarly _ unfinished => exact absurd (finished.symm.trans unfinished) (by decide)
  | interrupted unwritable _ _ => exact absurd writable unwritable

theorem eq_endedEarly (h : Answers o r answer) (writable : r.IsWritable) (unfinished : r.finished = false) :
    answer = .error (.endedEarly .noLevel) ⟨r.toEmission, o, []⟩ := by
  cases h with
  | told _ finished => exact absurd (finished.symm.trans unfinished) (by decide)
  | endedEarly _ _ => rfl
  | interrupted unwritable _ _ => exact absurd writable unwritable

end Answers

/-- **A session answers with what a source gives by itself**, under the options that it has. -/
theorem answers_process (s : Session) (source : List Char) :
    Answers s.options (run s.options source) (process source s) := by
  rw [process_eq, process, bind_of_ok (reset_eq _)]
  have lines : Gives { options := s.options } (runLines s.options {} (codeLines source)).1
      ((runLines s.options {} (codeLines source)).2.map State.levels) _ :=
    gives_takeLines { options := s.options } 0 none (codeLines source)
  rw [run]
  generalize taken : takeLines 0 none (codeLines source) { options := s.options } = result at lines
  generalize runLines s.options {} (codeLines source) = after at lines
  obtain ⟨out, _ | t⟩ := after
  · cases lines with
    | endedEarly unended writable =>
      rw [bind_of_error taken]
      exact .endedEarly writable rfl
    | interrupted options_eq unended unwritable =>
      rw [bind_of_error taken]
      exact .interrupted unwritable options_eq (unended (List.forall_mem_nil _))
  · have same : (out ++ { tokens := closing ((Text.lines source).length + 1) t.levels }).diagnostics =
        out.diagnostics := List.append_nil _
    cases lines with
    | added unended writable =>
      have told := Answers.told (o := s.options)
        (r := ⟨out ++ { tokens := closing ((Text.lines source).length + 1) t.levels },
          t.levels.drop (t.levels.length - 1), true⟩) (by rw [Result.IsWritable, same]; exact writable) rfl
      simp only [reverse_drop_length_sub_one] at told
      rw [bind_of_ok taken, finish_eq, add_add]
      simpa [add] using told
    | interrupted options_eq unended unwritable =>
      rw [bind_of_error taken]
      refine .interrupted (fun writable => unwritable ?_) options_eq (unended (List.forall_mem_nil _))
      rw [Result.IsWritable, same] at writable
      exact writable

end Session

end Offside.Layout
