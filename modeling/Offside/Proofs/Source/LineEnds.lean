import Offside.Proofs.Text.Returns
import Offside.Source.Model

/-!
# Spellings of line ends

A source may end its lines with line feeds or with carriage returns before them, and it may come from a file, where
either is read as a line feed, or be given as a text, where it is left as it is. None of this can be told from what
is made of the source, and neither can whether its last line is ended.

## The model

All that is made of a source is made of its physical lines (`run_of_lines_eq`, `Program.ofSource_of_lines_eq`). So
sources with the same lines have models that are `Model.Alike`, or have none for the same reason
(`Model.load_alike`). It remains that the lines are the same, which is said of texts (`Text.lines_joinReturns`,
`Text.lines_append_newline`).

If a carriage return stood alone there would be a difference: in a file it ends a line, and in a text it does not.
-/

namespace Offside

/-! ### What is made of lines -/

/-- A layout is made of the lines of its source. -/
theorem Layout.run_of_lines_eq {source source' : List Char} (same : Text.lines source = Text.lines source')
    (o : Layout.Options) : Layout.run o source = Layout.run o source' := by
  rw [Layout.run, Layout.run, Layout.codeLines, Layout.codeLines, same]

theorem Program.ofSource_of_lines_eq {source source' : List Char} (same : Text.lines source = Text.lines source')
    (tab : TabWidth) : Program.ofSource tab source = Program.ofSource tab source' := by
  rw [Program.ofSource, Program.ofSource, Stretch.ofWordedSource, Stretch.ofWordedSource,
    Layout.run_of_lines_eq same]

namespace Model

/-- Two models that tell the same of their sources. -/
structure Alike (m m' : Model) : Prop where
  /-- The tokens, the scopes and the diagnostics are the same. -/
  result : m.result = m'.result
  ledger : m.ledger = m'.ledger
  canonical : ∀ step, m.canonical step = m'.canonical step
  writeOut : ∀ room step, m.writeOut room step = m'.writeOut room step
  /-- The same program is spelled, and with it the same tree, or there is the same error. -/
  program : m.program = m'.program
  outline : m.outline = m'.outline

/-- Two attempts to make a model that come to the same. -/
inductive ComeToTheSame : Except Fault Model → Except Fault Model → Prop
  | model {m m' : Model} (alike : m.Alike m') : ComeToTheSame (.ok m) (.ok m')
  | fault (e : Fault) : ComeToTheSame (.error e) (.error e)

variable {files files' : Source.Files} {tab : TabWidth} {path path' source source' text : List Char}

/-- Two models that hold the layouts of sources with the same lines. -/
theorem alike_of_lines_eq (same : Text.lines source = Text.lines source') (origin origin' : Origin)
    (result : Layout.Result) : Alike ⟨origin, tab, source, result⟩ ⟨origin', tab, source', result⟩ := by
  have program_eq : program ⟨origin, tab, source, result⟩ = program ⟨origin', tab, source', result⟩ := by
    rw [program, program, Program.ofSource_of_lines_eq same]
  refine ⟨rfl, rfl, fun _ => rfl, fun _ _ => rfl, program_eq, ?_⟩
  rw [outline, outline, program_eq]

theorem load_alike {origin origin' : Origin} (found : sourceOf files origin = .ok source)
    (found' : sourceOf files' origin' = .ok source') (same : Text.lines source = Text.lines source') :
    ComeToTheSame (load files tab origin) (load files' tab origin') := by
  simp only [load, found, found', bind, Except.bind, Layout.run_of_lines_eq same]
  cases (Layout.run { tabWidth := tab.columns } source').worded with
  | error e => exact .fault _
  | ok result => exact .model (alike_of_lines_eq same origin origin' result)

theorem ofSetting_columns (tab : TabWidth) : TabWidth.ofSetting (.integer tab.columns) = .ok tab := by
  simp [TabWidth.ofSetting, tab.columns_pos]

theorem make_text (files : Source.Files) (tab : TabWidth) (text : List Char) :
    make files none (some text) (.integer tab.columns) = load files tab (.text text) := by
  rw [make, ofSetting_columns]
  rfl

theorem make_file (files : Source.Files) (tab : TabWidth) (path : List Char) :
    make files (some path) none (.integer tab.columns) = load files tab (.file path) := by
  rw [make, ofSetting_columns]
  rfl

/-- The source in a file is the text that the file holds, with line feeds for carriage returns. -/
theorem sourceOf_file (held : files path = .ok (Text.Utf8.encode text)) :
    sourceOf files (.file path) = .ok (Text.unifyReturns text) := by
  simp [sourceOf, held, Text.Utf8.decode_encode]

/-- There is a model of a text if all that is to be said about its layout can be worded. -/
theorem exists_load_text_iff : (∃ m, load files tab (.text text) = .ok m) ↔
    ∀ d ∈ (Layout.run { tabWidth := tab.columns } text).diagnostics, d.isWritable := by
  have found : sourceOf files (.text text) = .ok text := rfl
  simp only [load, found, bind, Except.bind]
  constructor
  · rintro ⟨m, loaded⟩
    cases worded : (Layout.run { tabWidth := tab.columns } text).worded with
    | error e =>
      rw [worded] at loaded
      cases loaded
    | ok result => exact (Layout.Result.worded_eq_ok_iff.1 worded).2
  · intro writable
    rw [Layout.Result.worded_eq_ok_iff.2 ⟨rfl, writable⟩]
    exact ⟨_, rfl⟩

/-- **How the lines of a source are ended makes no difference to what is made of it.** Where every carriage return
stands before a line feed, a file and the text that it holds come to the same, and so does the text without its
carriage returns; and where the last line is not ended, a text or a file in which it is comes to the same. A text has
a model unless something about its layout cannot be worded. -/
theorem make_alike (files : Source.Files) (tab : TabWidth) :
    (∀ text, Text.ReturnsPaired text →
      (∀ path, files path = .ok (Text.Utf8.encode text) →
        ComeToTheSame (make files (some path) none (.integer tab.columns))
          (make files none (some text) (.integer tab.columns))) ∧
      ComeToTheSame (make files none (some text) (.integer tab.columns))
        (make files none (some (Text.joinReturns text)) (.integer tab.columns))) ∧
    (∀ text, text ≠ [] → text.getLast? ≠ some '\n' →
      ComeToTheSame (make files none (some text) (.integer tab.columns))
        (make files none (some (text ++ ['\n'])) (.integer tab.columns)) ∧
      ∀ path path', files path = .ok (Text.Utf8.encode text) →
        files path' = .ok (Text.Utf8.encode (text ++ ['\n'])) →
        ComeToTheSame (make files (some path) none (.integer tab.columns))
          (make files (some path') none (.integer tab.columns))) ∧
    ∀ text, (∃ m, make files none (some text) (.integer tab.columns) = .ok m) ↔
      ∀ d ∈ (Layout.run { tabWidth := tab.columns } text).diagnostics, d.isWritable := by
  simp only [make_text, make_file]
  refine ⟨?_, ?_, ?_⟩
  · intro text paired
    have joined := Text.lines_joinReturns paired
    constructor
    · intro path held
      have same : Text.lines (Text.unifyReturns text) = Text.lines text := by
        rw [Text.unifyReturns_eq_joinReturns paired, joined]
      exact load_alike (sourceOf_file held) rfl same
    · exact load_alike rfl rfl joined.symm
  · intro text some_text unended
    constructor
    · exact load_alike rfl rfl (Text.lines_append_newline some_text unended).symm
    · intro path path' held held'
      have same := Text.lines_unifyReturns_append_newline some_text unended
      exact load_alike (sourceOf_file held) (sourceOf_file held') same.symm
  · intro text
    exact exists_load_text_iff

/-- Lines that are ended in both ways, a blank one among them, and a last one that is not ended. -/
theorem make_alike_mixed :
    Text.ReturnsPaired "a\r\n\tb\n\r\n c".toList ∧
      ComeToTheSame
        (make (fun _ => .ok (Text.Utf8.encode "a\r\n\tb\n\r\n c".toList)) (some ['p']) none
          (.integer TabWidth.standard.columns))
        (make (fun _ => .ok (Text.Utf8.encode "a\r\n\tb\n\r\n c".toList)) none (some "a\r\n\tb\n\r\n c".toList)
          (.integer TabWidth.standard.columns)) ∧
      ComeToTheSame
        (make (fun _ => .error .missing) none (some "a\r\n\tb\n\r\n c".toList) (.integer TabWidth.standard.columns))
        (make (fun _ => .error .missing) none (some "a\r\n\tb\n\r\n c\n".toList)
          (.integer TabWidth.standard.columns)) ∧
      ∃ m, make (fun _ => .error .missing) none (some "a\r\n\tb\n\r\n c".toList)
        (.integer TabWidth.standard.columns) = .ok m := by
  have paired : Text.ReturnsPaired "a\r\n\tb\n\r\n c".toList := by decide +kernel
  obtain ⟨spelled, ended, writable⟩ := make_alike (fun _ => .error .missing) .standard
  exact ⟨paired, ((make_alike _ .standard).1 _ paired).1 _ rfl, (ended _ (by decide) (by decide +kernel)).1,
    (writable _).2 (by decide +kernel)⟩

end Model

end Offside
