import Offside.Cli.Report
import Offside.Proofs.Cli.Words
import Offside.Proofs.Layout.Flags
import Offside.Proofs.Program.Reading
import Offside.Proofs.Tree.Headings
import Offside.Proofs.Tree.Owners
import Mathlib.Data.List.Forall2

/-!
# Sections of a report

A run of the command shows the sections that are asked for one after the other, always in the same order, and the first
that has nothing to show because of a fault is the last.

## The model

`Section.show?` is what one section shows, and `showAll` shows several: what has been shown stays (`showAll_append`),
and a fault ends the run after the empty line of its section (`showAll_of_error`). A report on a model is nothing else
(`ofModel_eq`). `Shows` says what a section shows of a source in terms of its layout and its program alone. Some numbers
are too long to be written; where none of those that a run would have to write is (`IsWritable`), the outline is the
only section that can fail.
-/

namespace Offside.Cli

open Source (Files)

/-! ### One section after the other -/

/-- What a section shows of a model after its empty line. -/
def Section.show? (m : Model) : Section → Except Model.Fault String
  | .tokens => .ok (Layout.listing m.result.tokens ++ "\n")
  | .scopeLedger => if m.ledger.isWritable then .ok (m.ledger.listing ++ "\n") else .error (.unwritable {})
  | .outline => m.outline.map fun headings => String.join (headings.map headingLine)
  | .canonical => .ok (String.ofList m.canonical)

/-- What is printed of a model after `shown`, section by section. -/
def showAll (m : Model) (shown : String) : List Section → Report
  | [] => { output := shown }
  | s :: rest =>
    match s.show? m with
    | .ok body => showAll m (shown ++ "\n" ++ body) rest
    | .error e => .failed (shown ++ "\n") e

/-- Texts, each after an empty line. -/
def blocks (bodies : List String) : String := String.join (bodies.map ("\n" ++ ·))

section

variable {m : Model} {shown : String}

theorem showAll_filter (r : Request) (s : Section) (rest : List Section) :
    showAll m shown ((s :: rest).filter r.shows) =
      if r.shows s then
        match s.show? m with
        | .ok body => showAll m (shown ++ "\n" ++ body) (rest.filter r.shows)
        | .error e => .failed (shown ++ "\n") e
      else showAll m shown (rest.filter r.shows) := by
  rw [List.filter_cons]
  split <;> rfl

/-- What is printed of a model when the ledger has been dealt with. -/
def afterLedger (r : Request) (shown : String) (m : Model) : Report :=
  if r.outline then
    match m.outline with
    | .error e => .failed (shown ++ "\n") e
    | .ok headings =>
      { output := shown ++ "\n" ++ String.join (headings.map headingLine) ++ canonicalSection r m }
  else { output := shown ++ canonicalSection r m }

theorem ofModel_eq_afterLedger (r : Request) (before : String) (m : Model) :
    ofModel r before m =
      let shown := before ++ summary m ++ tokenSection r m
      if stopsAtLedger r m then .failed (shown ++ "\n") (.unwritable {})
      else afterLedger r (shown ++ ledgerSection r m) m := rfl

theorem afterLedger_eq (r : Request) (shown : String) (m : Model) :
    afterLedger r shown m = showAll m shown ([.outline, .canonical].filter r.shows) := by
  have canonical (shown : String) :
      showAll m shown ([.canonical].filter r.shows) = { output := shown ++ canonicalSection r m } := by
    rw [showAll_filter, canonicalSection]
    by_cases on : r.canonical <;> simp [Request.shows, on, Section.show?, showAll, String.append_assoc]
  rw [showAll_filter, afterLedger]
  simp only [canonical, Request.shows, Section.show?]
  cases m.outline <;> rfl

/-- **A report on a model shows the sections one by one.** -/
theorem ofModel_eq (r : Request) (before : String) (m : Model) :
    ofModel r before m = showAll m (before ++ summary m) (Section.all.filter r.shows) := by
  have tokens (shown : String) (rest : List Section) :
      showAll m shown ((.tokens :: rest).filter r.shows) =
        showAll m (shown ++ tokenSection r m) (rest.filter r.shows) := by
    rw [showAll_filter, tokenSection]
    by_cases on : r.tokens <;> simp [Request.shows, on, Section.show?, String.append_assoc]
  rw [Section.all, tokens, showAll_filter, ← afterLedger_eq, ofModel_eq_afterLedger]
  by_cases on : r.scopeLedger
  · by_cases writable : m.ledger.isWritable
    · simp [stopsAtLedger, ledgerSection, Request.shows, Section.show?, on, writable, afterLedger_eq,
        String.append_assoc]
    · simp [stopsAtLedger, Request.shows, Section.show?, on, writable]
  · simp [stopsAtLedger, ledgerSection, Request.shows, on]

theorem showAll_of_error {s : Section} {e : Model.Fault} (h : s.show? m = .error e) (shown : String)
    (rest : List Section) : showAll m shown (s :: rest) = .failed (shown ++ "\n") e := by
  rw [showAll, h]

/-- **What has been shown stays**, whatever follows. -/
theorem showAll_append {Shown : Section → String → Prop} {before : List Section}
    (h : ∀ s ∈ before, ∃ body, s.show? m = .ok body ∧ Shown s body) (rest : List Section) :
    ∃ bodies, List.Forall₂ Shown before bodies ∧
      ∀ shown, showAll m shown (before ++ rest) = showAll m (shown ++ blocks bodies) rest := by
  induction before with
  | nil => exact ⟨[], .nil, by simp [blocks]⟩
  | cons s more ih =>
    obtain ⟨bodies, all, eq⟩ := ih fun t ht => h t (List.mem_cons_of_mem _ ht)
    obtain ⟨body, here, fits⟩ := h s List.mem_cons_self
    refine ⟨body :: bodies, .cons fits all, fun shown => ?_⟩
    rw [List.cons_append, showAll, here]
    simp only [eq, blocks, List.map_cons, String.join_cons, String.append_assoc]

end

/-! ### What a section shows of a source -/

/-- A heading's line in an outline: two spaces for each suite around it, its text, and its line number. -/
def outlineLine (h : Heading) : String :=
  String.join (List.replicate h.depth "  ") ++ String.ofList h.text ++ "  (line " ++
    h.line?.elim "None" toString ++ ")\n"

/-- What stands at the beginning: how many tokens there are, and a warning for each diagnostic. -/
def opening (r : Layout.Result) : String :=
  "Preprocessed " ++ toString r.tokens.length ++ " tokens.\n"
    ++ String.join (r.diagnostics.map fun d => "Warning: " ++ d.message ++ "\n")

/-- What a section shows of a source after its empty line. -/
inductive Shows (tab : TabWidth) (source : List Char) : Section → String → Prop
  | tokens :
    Shows tab source .tokens (Layout.listing (Layout.run { tabWidth := tab.columns } source).tokens ++ "\n")
  | scopeLedger :
    Shows tab source .scopeLedger
      (Ledger.listing ⟨(Layout.run { tabWidth := tab.columns } source).scopes⟩ ++ "\n")
  /-- A line for each statement that owns a suite, as deep as suites are around the statement. -/
  | outline {p : Program} {headings : List Heading} (parsed : parse tab source = .ok p)
      (each : List.Forall₂ Standing.IsHeading p.tree.owners headings) :
    Shows tab source .outline (String.join (headings.map outlineLine))
  | canonical :
    Shows tab source .canonical
      (String.ofList (Layout.render .standard (Layout.run { tabWidth := tab.columns } source).tokens))

/-- No number is too long that a run has to write when these sections are asked for. -/
structure IsWritable (tab : TabWidth) (source : List Char) (asked : Section → Prop) : Prop where
  diagnostics : ∀ d ∈ (Layout.run { tabWidth := tab.columns } source).diagnostics, d.isWritable
  ledger : asked .scopeLedger → Ledger.isWritable ⟨(Layout.run { tabWidth := tab.columns } source).scopes⟩
  fault : asked .outline → ∀ e, parse tab source = .error e → e.isWritable

theorem headingLine_eq (h : Heading) : headingLine h = outlineLine h := by
  have spaces (n : Nat) : String.ofList (List.replicate (2 * n) ' ') = String.join (List.replicate n "  ") := by
    induction n with
    | zero => rfl
    | succ n ih =>
      rw [List.replicate_succ, String.join_cons, ← ih, Nat.mul_succ, Nat.add_comm, List.replicate_add,
        String.ofList_append]
      rfl
  rw [headingLine, outlineLine, String.ofList_append, spaces]

/-- The model of a source. -/
def modelOf (origin : Origin) (tab : TabWidth) (source : List Char) : Model :=
  ⟨origin, tab, source, Layout.run { tabWidth := tab.columns } source⟩

variable {files : Files} {origin : Origin} {tab : TabWidth} {source : List Char} {asked : Section → Prop}

theorem diagnostics_lineOptions (tab : TabWidth) (source : List Char) :
    (Layout.run tab.lineOptions source).diagnostics =
      (Layout.run { tabWidth := tab.columns } source).diagnostics := by
  rw [Layout.toEmission_run tab.nonneg_lineOptions]
  rfl

namespace IsWritable

/-- The same diagnostics are reported when a program is read. -/
theorem diagnostics_newlines (h : IsWritable tab source asked) :
    ∀ d ∈ (Layout.run tab.lineOptions source).diagnostics, d.isWritable :=
  diagnostics_lineOptions tab source ▸ h.diagnostics

theorem load_eq (h : IsWritable tab source asked) (found : Model.sourceOf files origin = .ok source) :
    Model.load files tab origin = .ok (modelOf origin tab source) := by
  have worded := Layout.Result.worded_eq_ok_iff.2 ⟨rfl, h.diagnostics⟩
  simp [Model.load, modelOf, found, worded, bind, Except.bind, Except.mapError, pure, Except.pure]

theorem show_outline (h : IsWritable tab source asked) {p : Program} (parsed : parse tab source = .ok p)
    (origin : Origin) :
    ∃ body, Section.outline.show? (modelOf origin tab source) = .ok body ∧ Shows tab source .outline body := by
  obtain ⟨-, proper, -⟩ := Program.ofStretch_eq_ok_iff.1 parsed
  have told : Program.ofSource tab source = .ok p := Program.ofSource_eq_ok_iff.2 ⟨parsed, h.diagnostics_newlines⟩
  refine ⟨_, ?_, .outline parsed (Tree.forall₂_owners_of_outline proper.outline_eq)⟩
  simp [Section.show?, modelOf, Model.outline, Model.program, told, bind, Except.bind, Except.mapError,
    proper.outline_eq, Except.map, funext headingLine_eq]

/-- Where there is no program, its error stands in the place of the outline. -/
theorem outline_fails (h : IsWritable tab source asked) (on : asked .outline) {e : ParseError}
    (failed : parse tab source = .error e) (origin : Origin) :
    Section.outline.show? (modelOf origin tab source) = .error (.parse e) := by
  have worded : e.worded = .ok e := if_pos (h.fault on e failed)
  have refused : Program.ofStretch (Stretch.ofSource tab source) = .error e := failed
  simp [Section.show?, modelOf, Model.outline, Model.program, Program.ofSource,
    Stretch.ofWordedSource_eq h.diagnostics_newlines, refused, worded, bind, Except.bind, Except.mapError, Except.map]

theorem show_of_ne_outline (h : IsWritable tab source asked) {s : Section} (on : asked s) (other : s ≠ .outline)
    (origin : Origin) :
    ∃ body, s.show? (modelOf origin tab source) = .ok body ∧ Shows tab source s body := by
  cases s with
  | tokens => exact ⟨_, rfl, .tokens⟩
  | scopeLedger => exact ⟨_, if_pos (h.ledger on), .scopeLedger⟩
  | outline => exact absurd rfl other
  | canonical => exact ⟨_, rfl, .canonical⟩

end IsWritable

/-! ### Whole runs -/

/-- The sections that words ask for, in the order in which they are shown. -/
def requested (words : List Word) : List Section := Section.all.filter fun s => .asks s ∈ words

/-- The run on a command line of words. -/
def Report.ofWords (files : Files) (words : List Word) : Report :=
  Report.ofArguments files (words.flatMap Word.texts)

namespace Says

variable {words : List Word} {path : List Char} {bytes : List UInt8} {m : Model} {e : Model.Fault}

/-- A run on a file that is there is the run on the source in it. -/
theorem report_eq (h : Says words path tab) (named : path ≠ []) (held : files path = .ok bytes)
    (short : ∀ value ∈ words.filterMap Word.tabWidth?, value.length ≤ Text.longestNumeral) :
    ∃ r : Request, (∀ s, r.shows s = true ↔ .asks s ∈ words) ∧ r.tab = .integer tab.columns ∧
      Report.ofWords files words = ofOrigin files r "" (.file path) := by
  obtain ⟨r, read, source, builtIn, width, shows⟩ := h.exists_request short
  refine ⟨r, shows, width, ?_⟩
  have there : files.exists path = true := by rw [Files.exists, held]
  cases path with
  | nil => exact absurd rfl named
  | cons c rest => simp [Report.ofWords, Report.ofArguments, read, ofRequest, builtIn, source, there]

theorem report_of_load (h : Says words path tab) (named : path ≠ []) (held : files path = .ok bytes)
    (short : ∀ value ∈ words.filterMap Word.tabWidth?, value.length ≤ Text.longestNumeral)
    (loaded : Model.load files tab (.file path) = .ok m) :
    let shown := showAll m (opening m.result) (requested words)
    (Report.ofWords files words).output = shown.output ∧ (Report.ofWords files words).ending = shown.ending := by
  obtain ⟨r, shows, width, report⟩ := h.report_eq named held short
  have same : Section.all.filter r.shows = requested words := by
    refine List.filter_congr fun s _ => ?_
    rw [Bool.eq_iff_iff, shows s, decide_eq_true_eq]
  have accepted := TabWidth.ofSetting_eq_ok_iff.2 width
  simp only [report, ofOrigin, accepted, loaded, ofModel_eq, same, String.empty_append]
  exact ⟨rfl, rfl⟩

/-- A source that has no model ends the run before anything is shown. -/
theorem report_of_not_load (h : Says words path tab) (named : path ≠ []) (held : files path = .ok bytes)
    (short : ∀ value ∈ words.filterMap Word.tabWidth?, value.length ≤ Text.longestNumeral)
    (failed : Model.load files tab (.file path) = .error e) :
    (Report.ofWords files words).output = (Report.failed "" e).output ∧
      (Report.ofWords files words).ending = (Report.failed "" e).ending := by
  obtain ⟨r, -, width, report⟩ := h.report_eq named held short
  have accepted := TabWidth.ofSetting_eq_ok_iff.2 width
  simp [report, ofOrigin, accepted, failed]

/-- A width with too many digits is answered by how the command is used. -/
theorem report_of_long (h : Says words path tab) {value : List Char}
    (mem : value ∈ words.filterMap Word.tabWidth?) (long : Text.longestNumeral < value.length) (files : Files) :
    Report.ofWords files words = ofUsageError (.invalidValue .tabWidth ⟨value⟩) := by
  rw [Report.ofWords, Report.ofArguments, h.ofArguments_of_long mem long]

end Says

theorem mem_requested {words : List Word} {s : Section} : s ∈ requested words ↔ .asks s ∈ words := by
  rw [requested, List.mem_filter, decide_eq_true_eq, and_iff_right (by cases s <;> decide)]

/-- The sections before the outline, if that is asked for. -/
theorem exists_requested_split {words : List Word} (on : .asks .outline ∈ words) :
    ∃ after, requested words = (requested words).takeWhile (· ≠ .outline) ++ .outline :: after := by
  obtain ⟨before, after, split, none⟩ := List.eq_append_cons_of_mem (mem_requested.2 on)
  have others : ∀ s ∈ before, decide (s ≠ Section.outline) = true := by
    intro s hs
    simpa using ne_of_mem_of_not_mem hs none
  refine ⟨after, ?_⟩
  rw [split, List.takeWhile_append_of_pos others]
  simp

/-- **What the command prints, and how it ends.** A command line may name a file, ask for sections and give the width of
a tab, in any order. The run prints how many tokens there are, a warning for each diagnostic, and the sections, each
after an empty line and always in the same order. It ends in failure exactly if the outline is asked for and the source
is no program; then the error stands in the place of the outline, and nothing follows it. -/
theorem Report.ofWords_sections {files : Files} {words : List Word} {path text : List Char} {bytes : List UInt8}
    {tab : TabWidth} (h : Says words path tab) (named : path ≠ [])
    (short : ∀ value ∈ words.filterMap Word.tabWidth?, value.length ≤ Text.longestNumeral)
    (held : files path = .ok bytes) (decoded : Text.Utf8.decode bytes = .ok text)
    (writable : IsWritable tab (Text.unifyReturns text) (.asks · ∈ words)) :
    let source := Text.unifyReturns text
    let start := opening (Layout.run { tabWidth := tab.columns } source)
    let report := Report.ofWords files words
    (report.ending = .status 1 ↔ .asks .outline ∈ words ∧ ∃ e, parse tab source = .error e) ∧
    (report.ending ≠ .status 1 → report.ending = .status 0 ∧
      ∃ bodies, List.Forall₂ (Shows tab source) (requested words) bodies ∧
        report.output = start ++ blocks bodies) ∧
    ∀ e, report.ending = .status 1 → parse tab source = .error e →
      ∃ bodies, List.Forall₂ (Shows tab source) ((requested words).takeWhile (· ≠ .outline)) bodies ∧
        report.output = start ++ blocks bodies ++ "\n" ++ "Error: " ++ e.message ++ "\n" := by
  intro source start report
  have found : Model.sourceOf files (.file path) = .ok source := by
    simp [Model.sourceOf, held, decoded, source]
  obtain ⟨output, ending⟩ := h.report_of_load named held short (writable.load_eq found)
  by_cases failing : Word.asks .outline ∈ words ∧ ∃ e, parse tab source = .error e
  · obtain ⟨on, e, failed⟩ := failing
    -- the sections before the outline are shown, and at the outline the run ends
    obtain ⟨after, split⟩ := exists_requested_split on
    have before : ∀ s ∈ (requested words).takeWhile (· ≠ .outline), ∃ body,
        s.show? (modelOf (.file path) tab source) = .ok body ∧ Shows tab source s body := by
      intro s hs
      have other : s ≠ .outline := by simpa using List.mem_takeWhile_imp hs
      exact writable.show_of_ne_outline (mem_requested.1 ((List.takeWhile_prefix _).subset hs)) other _
    obtain ⟨bodies, all, shown⟩ := showAll_append before (.outline :: after)
    rw [split, shown, showAll_of_error (writable.outline_fails on failed _)] at output ending
    have status : report.ending = .status 1 := ending
    refine ⟨iff_of_true status ⟨on, e, failed⟩, absurd status, fun e' _ failed' => ⟨bodies, all, ?_⟩⟩
    obtain rfl := Except.error.inj (failed.symm.trans failed')
    exact output
  · have every : ∀ s ∈ requested words, ∃ body,
        s.show? (modelOf (.file path) tab source) = .ok body ∧ Shows tab source s body := by
      intro s hs
      by_cases other : s ≠ .outline
      · exact writable.show_of_ne_outline (mem_requested.1 hs) other _
      · obtain rfl := not_ne_iff.1 other
        cases parsed : parse tab source with
        | ok p => exact writable.show_outline parsed _
        | error e => exact absurd ⟨mem_requested.1 hs, e, parsed⟩ failing
    obtain ⟨bodies, all, shown⟩ := showAll_append every []
    rw [List.append_nil] at shown
    rw [shown] at output ending
    have status : report.ending = .status 0 := ending
    have other : report.ending ≠ .status 1 := by simp [status]
    exact ⟨iff_of_false other failing, fun _ => ⟨status, bodies, all, output⟩, fun _ one => absurd one other⟩

/-- Sections asked for out of order, of a source with a misaligned line that is no program. -/
theorem Report.ofWords_sections_misaligned :
    let files := Source.Folder.read ⟨[("a.mya".toList, Text.Utf8.encode "a\n\t\tb\r\n\tc?".toList)]⟩
    let report := Report.ofArguments files
      (["--canonical", "--tab-width=07", "--outline", "a.mya", "--tokens"].map String.toList)
    parse { columns := 7 } "a\n\t\tb\n\tc?".toList = .error ⟨.unexpectedCharacter '?', some 3, some 8⟩ ∧
      report.ending = .status 1 ∧
      report.output = "Preprocessed 6 tokens.
Warning: Indentation error at line 3: dedent to column 7 does not match any enclosing level (nearest is 0)

Line 1: [CODE] a
Line 2: [INDENT]
Line 2: [CODE] b
Line 3: [DEDENT]
Line 3: [CODE] c?
Line 4: [EOF]

Error: Parse error at line 3:8 - Unexpected character '?'
" := by
  intro files report
  have spoken : Says [.asks .canonical, .tabWidth "07".toList true, .asks .outline, .source "a.mya".toList,
      .asks .tokens] "a.mya".toList { columns := 7 } :=
    ⟨rfl, by decide, .numeral ⟨List.all_eq_true.1 rfl, rfl⟩⟩
  have failed : parse { columns := 7 } "a\n\t\tb\n\tc?".toList =
      .error ⟨.unexpectedCharacter '?', some 3, some 8⟩ := by decide +kernel
  have writable : IsWritable { columns := 7 } (Text.unifyReturns "a\n\t\tb\r\n\tc?".toList)
      (.asks · ∈ [Word.asks .canonical, .tabWidth "07".toList true, .asks .outline, .source "a.mya".toList,
        .asks .tokens]) := by
    refine ⟨by decide +kernel, by simp, fun _ e failed' => ?_⟩
    obtain rfl := Except.error.inj (failed.symm.trans failed')
    decide +kernel
  have held : files "a.mya".toList = .ok (Text.Utf8.encode "a\n\t\tb\r\n\tc?".toList) := by decide +kernel
  have decoded : Text.Utf8.decode (Text.Utf8.encode "a\n\t\tb\r\n\tc?".toList) =
      .ok "a\n\t\tb\r\n\tc?".toList := by decide +kernel
  obtain ⟨status, -, ends⟩ := Report.ofWords_sections spoken (by decide) (by decide) held decoded writable
  have one := status.2 ⟨by decide, _, failed⟩
  obtain ⟨bodies, all, output⟩ := ends _ one failed
  refine ⟨failed, one, output.trans ?_⟩
  cases all with
  | cons body none =>
    cases none
    cases body
    decide +kernel

/-- A tab of five columns, with so many zeros behind the five. -/
def fiveAndZeros (zeros : Nat) : TabWidth := ⟨Nat.pow 10 zeros * 5, Nat.mul_pos (Nat.pow_pos (by decide)) (by decide)⟩

/-- The words for such a tab, a file and sections. -/
def Word.wide (path : List Char) (zeros : Nat) (sections : List Section) : List Word :=
  .source path :: .tabWidth ('5' :: List.replicate zeros '0') false :: sections.map .asks

theorem tabWidth?_wide (path : List Char) (zeros : Nat) (sections : List Section) :
    (Word.wide path zeros sections).filterMap Word.tabWidth? = ['5' :: List.replicate zeros '0'] := by
  have unspoken : (sections.map Word.asks).filterMap Word.tabWidth? = [] := by
    simp [List.filterMap_map, Function.comp_def, Word.tabWidth?]
  exact congrArg (_ :: ·) unspoken

theorem length_of_mem_wide {path value : List Char} {zeros : Nat} {sections : List Section}
    (h : value ∈ (Word.wide path zeros sections).filterMap Word.tabWidth?) : value.length = zeros + 1 := by
  rw [tabWidth?_wide, List.mem_singleton] at h
  rw [h, List.length_cons, List.length_replicate]

theorem says_wide {path : List Char} (plain : path.head? ≠ some '-') (zeros : Nat) (sections : List Section) :
    Says (Word.wide path zeros sections) path (fiveAndZeros zeros) := by
  have five : Text.Spells ['5'] 5 := ⟨List.all_eq_true.1 rfl, rfl⟩
  have elsewhere : (sections.map Word.asks).filterMap Word.source? = [] := by
    simp [List.filterMap_map, Function.comp_def, Word.source?]
  refine ⟨?_, plain, ?_⟩
  · exact congrArg (_ :: ·) elsewhere
  · rw [tabWidth?_wide]
    exact .numeral (five.append_zeros zeros)

/-- Command lines with widths that are too long, or that make a number too long. The width itself is refused; where the
ledger, a diagnostic or the error of the source has a number that is too long, the run ends there and is left
unanswered. -/
theorem Report.ofWords_too_long :
    let files := Source.Folder.read ⟨[(['a'], Text.Utf8.encode "x".toList),
      (['b'], Text.Utf8.encode "a\n\t\tb".toList), (['c'], Text.Utf8.encode "\t\t a\n\t\tb".toList),
      (['d'], Text.Utf8.encode "a\n\t\t?".toList)]⟩
    (Says (Word.wide ['a'] 4300 []) ['a'] (fiveAndZeros 4300) ∧
      (Report.ofWords files (Word.wide ['a'] 4300 [])).output = "" ∧
      (Report.ofWords files (Word.wide ['a'] 4300 [])).ending = .status 2) ∧
    (Says (Word.wide ['b'] 4299 [.scopeLedger]) ['b'] (fiveAndZeros 4299) ∧
      (Report.ofWords files (Word.wide ['b'] 4299 [.scopeLedger])).output = "Preprocessed 5 tokens.\n\n" ∧
      (Report.ofWords files (Word.wide ['b'] 4299 [.scopeLedger])).ending = .unanswered (.unwritable {})) ∧
    (Says (Word.wide ['c'] 4299 []) ['c'] (fiveAndZeros 4299) ∧
      (Report.ofWords files (Word.wide ['c'] 4299 [])).output = "" ∧
      (Report.ofWords files (Word.wide ['c'] 4299 [])).ending = .unanswered (.unwritable {})) ∧
    (Says (Word.wide ['d'] 4299 [.outline]) ['d'] (fiveAndZeros 4299) ∧
      (Report.ofWords files (Word.wide ['d'] 4299 [.outline])).output = "Preprocessed 5 tokens.\n\n" ∧
      (Report.ofWords files (Word.wide ['d'] 4299 [.outline])).ending = .unanswered (.unwritable {})) := by
  intro files
  have short (path : List Char) (sections : List Section) :
      ∀ value ∈ (Word.wide path 4299 sections).filterMap Word.tabWidth?, value.length ≤ Text.longestNumeral := by
    intro value mem
    rw [length_of_mem_wide mem]
    decide
  have wide {path : List Char} (plain : path.head? ≠ some '-') := says_wide plain 4299
  have b : Model.load files (fiveAndZeros 4299) (.file ['b']) =
      .ok (modelOf (.file ['b']) (fiveAndZeros 4299) "a\n\t\tb".toList) := by decide +kernel
  have c : Model.load files (fiveAndZeros 4299) (.file ['c']) = .error (.unwritable {}) := by decide +kernel
  have d : Model.load files (fiveAndZeros 4299) (.file ['d']) =
      .ok (modelOf (.file ['d']) (fiveAndZeros 4299) "a\n\t\t?".toList) := by decide +kernel
  refine ⟨⟨says_wide (by decide) _ _, ?_⟩, ⟨wide (by decide) _, ?_⟩, ⟨wide (by decide) _, ?_⟩,
    wide (by decide) _, ?_⟩
  · have given := tabWidth?_wide ['a'] 4300 [] ▸ List.mem_singleton_self _
    have long : Text.longestNumeral < ('5' :: List.replicate 4300 '0').length := by
      rw [length_of_mem_wide given]
      decide
    have refused := (says_wide (by decide) 4300 []).report_of_long given long files
    exact ⟨congrArg Report.output refused, congrArg Report.ending refused⟩
  · obtain ⟨output, ending⟩ := (wide (by decide) [.scopeLedger]).report_of_load (by decide) rfl (short _ _) b
    exact ⟨output.trans (by decide +kernel), ending.trans (by decide +kernel)⟩
  · exact (wide (by decide) []).report_of_not_load (by decide) rfl (short _ _) c
  · obtain ⟨output, ending⟩ := (wide (by decide) [.outline]).report_of_load (by decide) rfl (short _ _) d
    exact ⟨output.trans (by decide +kernel), ending.trans (by decide +kernel)⟩

end Offside.Cli
