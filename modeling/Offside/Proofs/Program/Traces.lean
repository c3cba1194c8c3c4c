import Offside.Proofs.Program.Reading

/-!
# What programs are read from

A program is read from its items and from nothing else: the items that a reader has taken can be read off
what it has made of them, and the program that is made of them is the only one that they spell.

## The model

A program keeps a `Trace` of each item: all of a lexeme, the place where a suite opens, and of the end of a
line or a suite only that it is there. `Program.traces` lists the traces of a program in order,
`Reader.traces` those of a program half read. A step of a reader adds the trace of the item that it takes
(`Reader.traces_of_feed?`), so nothing is read that is not there and nothing is left out. The other way
round a reader that is given items with the traces of a program makes that program
(`Reader.feedAll_program`). Together a stretch of items spells at most one program
(`Program.ofStretch_eq_ok_iff`).
-/

namespace Offside

/-! ### Traces -/

/-- What a program keeps of an item. -/
inductive Item.Trace where
  | lexeme (item : Item)
  /-- A line ends. -/
  | newline
  /-- A suite opens at a place, if that is known. -/
  | indent (place? : Option Place)
  /-- A suite ends. -/
  | dedent
  deriving DecidableEq, Repr

/-- What a program keeps of the item. -/
def Item.trace (item : Item) : Item.Trace :=
  match item.symbol with
  | .lexeme _ => .lexeme item
  | .newline => .newline
  | .indent => .indent (some item.place)
  | .dedent => .dedent

theorem Item.trace_eq_lexeme_iff {item l : Item} :
    item.trace = .lexeme l ↔ item = l ∧ ∃ t, item.symbol = .lexeme t := by
  obtain ⟨symbol, text, place, stop?⟩ := item
  cases symbol <;> simp [trace]

theorem Item.trace_eq_newline_iff {item : Item} : item.trace = .newline ↔ item.symbol = .newline := by
  obtain ⟨symbol, text, place, stop?⟩ := item
  cases symbol <;> simp [trace]

theorem Item.trace_eq_indent_iff {item : Item} {place? : Option Place} :
    item.trace = .indent place? ↔ item.symbol = .indent ∧ place? = some item.place := by
  obtain ⟨symbol, text, place, stop?⟩ := item
  cases symbol <;> simp [trace, eq_comm]

theorem Item.trace_eq_dedent_iff {item : Item} : item.trace = .dedent ↔ item.symbol = .dedent := by
  obtain ⟨symbol, text, place, stop?⟩ := item
  cases symbol <;> simp [trace]

theorem Item.map_trace_of_lexemes {items : List Item} (h : ∀ item ∈ items, ∃ t, item.symbol = .lexeme t) :
    items.map Item.trace = items.map .lexeme :=
  List.map_congr_left fun item hi => Item.trace_eq_lexeme_iff.2 ⟨rfl, h item hi⟩

theorem Layout.CodeLine.map_trace_tokens {o : Layout.Options} (newlines : o.newlines = true)
    (line : Layout.CodeLine) :
    (Item.ofTokens (line.tokens o)).map Item.trace = (line.token o).items.map .lexeme ++ [.newline] := by
  have lexemes : (line.token o).items.map Item.trace = (line.token o).items.map .lexeme :=
    Item.map_trace_of_lexemes fun _ hi => Layout.Token.exists_lexeme_of_mem_items rfl hi
  rw [line.tokens_eq newlines, Item.ofTokens_cons, List.map_append, lexemes]
  rfl

/-- What a block keeps of the items that it is read from. -/
def Block.traces : Block → List Item.Trace
  | .empty => []
  | .line before items => before.traces ++ (items.map .lexeme ++ [.newline])
  | .group before items place suite =>
    before.traces ++ (items.map .lexeme ++ [.newline]) ++
      .indent (some place) :: (suite.traces ++ [.dedent])

/-- What a suite that no line owns keeps of its items. -/
def leadingTraces : Option (Place × Block) → List Item.Trace
  | none => []
  | some (place, suite) => .indent (some place) :: (suite.traces ++ [.dedent])

/-- What a program keeps of the items that it is read from. -/
def Program.traces (p : Program) : List Item.Trace := leadingTraces p.leading? ++ p.body.traces

/-- What is kept of the items up to the beginning of a suite. -/
def Frame.traces : Frame → List Item.Trace
  | .leading place => [.indent (some place)]
  | .suite before header place =>
    before.traces ++ (header.map .lexeme ++ [.newline]) ++ [.indent (some place)]

/-- What is kept of the items read so far. -/
def Reader.traces (r : Reader) : List Item.Trace :=
  leadingTraces r.leading? ++ r.frames.reverse.flatMap Frame.traces ++ r.block.traces ++
    r.items.map .lexeme

/-! ### Proper programs -/

/-- Each line has an item, and each suite a statement. -/
def Block.Proper : Block → Prop
  | .empty => True
  | .line before items => before.Proper ∧ items ≠ []
  | .group before items _ suite => before.Proper ∧ items ≠ [] ∧ suite.Proper ∧ suite ≠ .empty

/-- The suite that no line owns, if there is one, is a proper suite. -/
def ProperLeading (leading? : Option (Place × Block)) : Prop :=
  ∀ suite ∈ leading?, suite.2.Proper ∧ suite.2 ≠ .empty

structure Program.Proper (p : Program) : Prop where
  leading : ProperLeading p.leading?
  body : p.body.Proper

/-- What comes before a suite is proper. -/
def Frame.Proper : Frame → Prop
  | .leading _ => True
  | .suite before header _ => before.Proper ∧ header ≠ []

/-- What can be said of a program half read. -/
structure Reader.Proper (r : Reader) : Prop where
  rooted : Frame.Rooted r.frames
  /-- No line owns one suite at most. -/
  alone : ∀ place, .leading place ∈ r.frames → r.leading? = none
  leading : ProperLeading r.leading?
  frames : ∀ f ∈ r.frames, f.Proper
  block : r.block.Proper

namespace Reader

theorem proper_start : Reader.Proper {} where
  rooted := trivial
  alone _ _ := rfl
  leading := by simp [ProperLeading]
  frames := by simp
  block := trivial

/-! ### One item -/

/-- A suite opens below a line or before all lines. -/
theorem openSuite?_eq_some_iff {r r' : Reader} {place : Place} :
    r.openSuite? place = some r' ↔
      (∃ before header, r.block = .line before header ∧
        r' = { r with frames := .suite before header place :: r.frames, block := .empty }) ∨
      r.block = .empty ∧ r.frames = [] ∧ r.leading? = none ∧ r' = { r with frames := [.leading place] } := by
  obtain ⟨frames, leading?, block, items⟩ := r
  cases block with
  | line before header => simp [openSuite?, eq_comm]
  | group before header place suite => simp [openSuite?]
  | empty =>
    cases frames with
    | cons frame outer => simp [openSuite?]
    | nil => cases leading? <;> simp [openSuite?, eq_comm]

/-- A suite ends when it has a statement. -/
theorem closeSuite?_eq_some_iff {r r' : Reader} :
    r.closeSuite? = some r' ↔ r.block ≠ .empty ∧
      ((∃ place outer, r.frames = .leading place :: outer ∧
        r' = { r with frames := outer, leading? := some (place, r.block), block := .empty }) ∨
      ∃ before header place outer, r.frames = .suite before header place :: outer ∧
        r' = { r with frames := outer, block := .group before header place r.block }) := by
  obtain ⟨frames, leading?, block, items⟩ := r
  cases frames with
  | nil => cases block <;> simp [closeSuite?]
  | cons frame outer => cases frame <;> cases block <;> simp [closeSuite?, eq_comm, and_assoc]

/-- What a suite opens with is added. -/
theorem traces_of_openSuite? {r r' : Reader} {place : Place} (empty : r.items = [])
    (h : r.openSuite? place = some r') : r'.traces = r.traces ++ [.indent (some place)] := by
  rcases openSuite?_eq_some_iff.1 h with ⟨before, header, block, rfl⟩ | ⟨block, frames, leading, rfl⟩
  · simp [traces, empty, block, Block.traces, Frame.traces]
  · simp [traces, empty, block, frames, leading, leadingTraces, Block.traces, Frame.traces]

/-- A suite that opens leaves a proper program half read. -/
theorem Proper.openSuite? {r r' : Reader} {place : Place} (proper : r.Proper)
    (h : r.openSuite? place = some r') : r'.Proper := by
  rcases openSuite?_eq_some_iff.1 h with ⟨before, header, block, rfl⟩ | ⟨block, frames, leading, rfl⟩
  · have above := proper.block
    rw [block] at above
    refine ⟨proper.rooted, fun place' mem => ?_, proper.leading, ?_, trivial⟩
    · rcases List.mem_cons.1 mem with other | mem
      · cases other
      · exact proper.alone place' mem
    · intro f hf
      rcases List.mem_cons.1 hf with rfl | hf
      · exact above
      · exact proper.frames f hf
  · refine ⟨rfl, fun _ _ => leading, proper.leading, ?_, proper.block⟩
    intro f hf
    rw [List.mem_singleton.1 hf]
    trivial

/-- The suite that no line owns is the outermost. -/
theorem Proper.eq_nil_of_leading {r : Reader} {place : Place} {outer : List Frame} (proper : r.Proper)
    (frames : r.frames = .leading place :: outer) : outer = [] ∧ r.leading? = none := by
  have rooted := proper.rooted
  rw [frames] at rooted
  exact ⟨rooted, proper.alone place (by simp [frames])⟩

theorem traces_of_closeSuite? {r r' : Reader} (proper : r.Proper) (empty : r.items = [])
    (h : r.closeSuite? = some r') : r'.traces = r.traces ++ [.dedent] := by
  obtain ⟨-, ⟨place, outer, frames, rfl⟩ | ⟨before, header, place, outer, frames, rfl⟩⟩ :=
    closeSuite?_eq_some_iff.1 h
  · obtain ⟨rfl, leading⟩ := proper.eq_nil_of_leading frames
    simp [traces, empty, frames, leading, leadingTraces, Block.traces, Frame.traces]
  · simp [traces, empty, frames, Block.traces, Frame.traces]

theorem Proper.closeSuite? {r r' : Reader} (proper : r.Proper) (h : r.closeSuite? = some r') :
    r'.Proper := by
  obtain ⟨some_statement, ⟨place, outer, frames, rfl⟩ | ⟨before, header, place, outer, frames, rfl⟩⟩ :=
    closeSuite?_eq_some_iff.1 h
  · obtain ⟨rfl, -⟩ := proper.eq_nil_of_leading frames
    refine ⟨trivial, fun _ _ => ?_, fun suite hs => ?_, by simp, trivial⟩
    · contradiction
    · obtain rfl := Option.some.inj hs
      exact ⟨proper.block, some_statement⟩
  · have rooted := proper.rooted
    have above := proper.frames
    rw [frames] at rooted above
    obtain ⟨before_proper, some_item⟩ := above _ List.mem_cons_self
    refine ⟨rooted, fun place' mem => ?_, proper.leading, fun f hf => ?_, before_proper, some_item, proper.block,
      some_statement⟩
    · exact proper.alone place' (by simp [frames, mem])
    · exact above f (List.mem_cons_of_mem _ hf)

/-- **An item that is taken leaves its trace.** -/
theorem traces_of_feed? {r r' : Reader} {item : Item} (proper : r.Proper) (h : r.feed? item = some r') :
    r'.traces = r.traces ++ [item.trace] := by
  obtain ⟨symbol, text, place, stop?⟩ := item
  cases symbol with
  | lexeme t =>
    obtain rfl := Option.some.inj h
    simp [traces, Item.trace]
  | newline =>
    simp only [feed?] at h
    split at h
    · cases h
    · obtain rfl := Option.some.inj h
      simp [traces, Block.traces, Item.trace]
  | indent =>
    simp only [feed?] at h
    split at h
    · rename_i empty
      exact traces_of_openSuite? (List.isEmpty_iff.1 empty) h
    · cases h
  | dedent =>
    simp only [feed?] at h
    split at h
    · rename_i empty
      exact traces_of_closeSuite? proper (List.isEmpty_iff.1 empty) h
    · cases h

/-- Taking an item leaves a proper program half read. -/
theorem Proper.feed? {r r' : Reader} {item : Item} (proper : r.Proper) (h : r.feed? item = some r') :
    r'.Proper := by
  obtain ⟨symbol, text, place, stop?⟩ := item
  cases symbol with
  | lexeme t =>
    obtain rfl := Option.some.inj h
    exact ⟨proper.rooted, proper.alone, proper.leading, proper.frames, proper.block⟩
  | newline =>
    simp only [Reader.feed?] at h
    split at h
    · cases h
    · rename_i some_item
      obtain rfl := Option.some.inj h
      exact ⟨proper.rooted, proper.alone, proper.leading, proper.frames, proper.block, by simpa using some_item⟩
  | indent =>
    simp only [Reader.feed?] at h
    split at h
    · exact proper.openSuite? h
    · cases h
  | dedent =>
    simp only [Reader.feed?] at h
    split at h
    · exact proper.closeSuite? h
    · cases h

theorem traces_of_feedAll {r r' : Reader} {items : List Item} (proper : r.Proper)
    (h : r.feedAll items = .ok r') : r'.Proper ∧ r'.traces = r.traces ++ items.map Item.trace := by
  induction items generalizing r with
  | nil =>
    obtain rfl := Except.ok.inj h
    exact ⟨proper, (List.append_nil _).symm⟩
  | cons item rest ih =>
    rw [feedAll] at h
    cases taken : r.feed? item with
    | none => simp [taken] at h
    | some r₁ =>
      rw [taken] at h
      obtain ⟨proper', traces_eq⟩ := ih (proper.feed? taken) h
      refine ⟨proper', ?_⟩
      rw [traces_eq, traces_of_feed? proper taken, List.append_assoc, List.map_cons, List.singleton_append]

/-! ### Items with the traces of a program -/

theorem exists_lexeme_of_map_trace {items lexemes : List Item}
    (h : items.map Item.trace = lexemes.map .lexeme) :
    items = lexemes ∧ ∀ item ∈ items, ∃ t, item.symbol = .lexeme t := by
  induction items generalizing lexemes with
  | nil =>
    obtain rfl := List.map_eq_nil_iff.1 h.symm
    exact ⟨rfl, by simp⟩
  | cons item rest ih =>
    obtain ⟨l, lexemes, rfl, first, others⟩ := List.map_eq_cons_iff.1 h.symm
    obtain ⟨rfl, lexeme⟩ := Item.trace_eq_lexeme_iff.1 first.symm
    obtain ⟨rfl, each⟩ := ih others.symm
    exact ⟨rfl, List.forall_mem_cons.2 ⟨lexeme, each⟩⟩

theorem feedAll_line_traces {r : Reader} {items lexemes : List Item} (empty : r.items = [])
    (some_item : lexemes ≠ []) (h : items.map Item.trace = lexemes.map .lexeme ++ [.newline]) :
    r.feedAll items = .ok { r with block := .line r.block lexemes } := by
  obtain ⟨words, ends, rfl, words_eq, ends_eq⟩ := List.map_eq_append_iff.1 h
  obtain ⟨item, rfl, newline⟩ := List.map_eq_singleton_iff.1 ends_eq
  obtain ⟨rfl, each⟩ := exists_lexeme_of_map_trace words_eq
  have taken : Reader.feed? { r with items := r.items ++ words } item =
      some { r with block := .line r.block words } := by
    simp [feed?, Item.trace_eq_newline_iff.1 newline, empty, some_item]
  rw [feedAll_append_of_ok (feedAll_lexemes each r)]
  exact feedAll_cons taken []

theorem feed?_indent {r r' : Reader} {item : Item} {place : Place} (empty : r.items = [])
    (h : item.trace = .indent (some place)) (opened : r.openSuite? place = some r') :
    r.feed? item = some r' := by
  obtain ⟨symbol, same⟩ := Item.trace_eq_indent_iff.1 h
  obtain rfl := Option.some.inj same
  simp [feed?, symbol, empty, opened]

theorem feed?_dedent {r r' : Reader} {item : Item} (empty : r.items = []) (h : item.trace = .dedent)
    (closed : r.closeSuite? = some r') : r.feed? item = some r' := by
  simp [feed?, Item.trace_eq_dedent_iff.1 h, empty, closed]

/-- The traces of a suite are those of its opening, its statements and its end. -/
theorem exists_suite_of_map_trace {items : List Item} {place : Place} {suite : Block}
    (h : items.map Item.trace = .indent (some place) :: (suite.traces ++ [.dedent])) :
    ∃ first inner last, items = first :: (inner ++ [last]) ∧ first.trace = .indent (some place) ∧
      inner.map Item.trace = suite.traces ∧ last.trace = .dedent := by
  obtain ⟨first, others, rfl, opens, rest_eq⟩ := List.map_eq_cons_iff.1 h
  obtain ⟨inner, ends, rfl, inner_eq, ends_eq⟩ := List.map_eq_append_iff.1 rest_eq
  obtain ⟨last, rfl, closes⟩ := List.map_eq_singleton_iff.1 ends_eq
  exact ⟨first, inner, last, rfl, opens, inner_eq, closes⟩

/-- **A reader that is given what a block is read from makes the block of it.** -/
theorem feedAll_block {b : Block} (proper : b.Proper) {r : Reader} {items : List Item}
    (empty : r.items = []) (block : r.block = .empty) (h : items.map Item.trace = b.traces) :
    r.feedAll items = .ok { r with block := b } := by
  induction b generalizing r items with
  | empty =>
    obtain rfl := List.map_eq_nil_iff.1 h
    rw [← block]
    rfl
  | line before lexemes ih =>
    obtain ⟨first, last, rfl, first_eq, last_eq⟩ := List.map_eq_append_iff.1 h
    have taken := ih proper.1 empty block first_eq
    have line := feedAll_line_traces (r := { r with block := before }) empty proper.2 last_eq
    exact (feedAll_append_of_ok taken last).trans line
  | group before lexemes place suite ih ih_suite =>
    obtain ⟨before_proper, some_item, suite_proper, some_statement⟩ := proper
    obtain ⟨header, rest, rfl, header_eq, rest_eq⟩ := List.map_eq_append_iff.1 h
    obtain ⟨first, last, rfl, first_eq, last_eq⟩ := List.map_eq_append_iff.1 header_eq
    obtain ⟨opening, inner, ending, rfl, opens, inner_eq, closes⟩ := exists_suite_of_map_trace rest_eq
    have taken := ih before_proper empty block first_eq
    have line := feedAll_line_traces (r := { r with block := before }) empty some_item last_eq
    have opened := feed?_indent (r := { r with block := .line before lexemes }) empty opens rfl
    have within := ih_suite suite_proper
      (r := { r with frames := .suite before lexemes place :: r.frames, block := .empty }) empty rfl inner_eq
    have closed := feed?_dedent
      (r := { r with frames := .suite before lexemes place :: r.frames, block := suite }) empty closes
      (closeSuite?_eq_some_iff.2 ⟨some_statement, .inr ⟨before, lexemes, place, r.frames, rfl, rfl⟩⟩)
    rw [feedAll_append_of_ok ((feedAll_append_of_ok taken last).trans line), feedAll_cons opened,
      feedAll_append_of_ok within, feedAll_cons closed]
    rfl

/-- **A reader that is given what a program is read from makes the program of it.** -/
theorem feedAll_program {p : Program} (proper : p.Proper) {items : List Item}
    (h : items.map Item.trace = p.traces) :
    Reader.feedAll {} items = .ok { leading? := p.leading?, block := p.body } := by
  obtain ⟨leading?, body⟩ := p
  cases leading? with
  | none => exact feedAll_block proper.body rfl rfl h
  | some leading =>
    obtain ⟨place, suite⟩ := leading
    obtain ⟨suite_proper, some_statement⟩ := proper.leading _ rfl
    obtain ⟨above, below, rfl, above_eq, below_eq⟩ := List.map_eq_append_iff.1 h
    obtain ⟨opening, inner, ending, rfl, opens, inner_eq, closes⟩ := exists_suite_of_map_trace above_eq
    have opened := feed?_indent (r := {}) rfl opens rfl
    have within := feedAll_block suite_proper (r := { frames := [.leading place] }) rfl rfl inner_eq
    have closed := feed?_dedent (r := { frames := [.leading place], block := suite }) rfl closes
      (closeSuite?_eq_some_iff.2 ⟨some_statement, .inl ⟨place, [], rfl, rfl⟩⟩)
    have rest := feedAll_block proper.body (r := { leading? := some (place, suite) }) rfl rfl below_eq
    rw [List.cons_append, feedAll_cons opened, List.append_assoc, feedAll_append_of_ok within]
    exact (feedAll_cons closed below).trans rest

/-- A program ends where no suite and no line is half read. -/
theorem finish_eq_ok_iff {r : Reader} {p : Program} :
    r.finish = .ok p ↔ r.frames = [] ∧ r.items = [] ∧ p = ⟨r.leading?, r.block⟩ := by
  simp only [finish, Bool.and_eq_true, List.isEmpty_iff]
  split
  · rename_i done
    simp [done, eq_comm]
  · rename_i more
    simp only [reduceCtorEq, false_iff]
    exact fun done => more ⟨done.1, done.2.1⟩

end Reader

/-- **A stretch of items spells a program exactly when it has no fault and the program is what its items
leave traces in.** -/
theorem Program.ofStretch_eq_ok_iff {stretch : Stretch} {p : Program} :
    Program.ofStretch stretch = .ok p ↔
      stretch.failure? = none ∧ p.Proper ∧ p.traces = stretch.items.map Item.trace := by
  constructor
  · intro h
    cases fed : Reader.feedAll {} stretch.items with
    | error e => simp [ofStretch_of_error fed] at h
    | ok r =>
      cases failure : stretch.failure? with
      | some e => simp [ofStretch_of_failure fed failure] at h
      | none =>
        have finished : r.finish = .ok p := by
          simpa [ofStretch, fed, failure, bind, Except.bind] using h
        obtain ⟨frames, items, rfl⟩ := Reader.finish_eq_ok_iff.1 finished
        obtain ⟨proper, traces_eq⟩ := Reader.traces_of_feedAll Reader.proper_start fed
        refine ⟨rfl, ⟨proper.leading, proper.block⟩, ?_⟩
        simpa [Reader.traces, traces, frames, items, leadingTraces, Block.traces] using traces_eq
  · rintro ⟨failure, proper, traces_eq⟩
    exact ofStretch_of_ok (Reader.feedAll_program proper traces_eq.symm) failure rfl rfl

end Offside
