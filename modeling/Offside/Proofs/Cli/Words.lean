import Offside.Cli.Request
import Offside.Proofs.Text.Decimal
import Mathlib.Data.List.Induction

/-!
# Command lines in words

A command line that names a source, asks for sections of the report and perhaps gives the width of a tab says the same
in whatever order it does so.

## The model

A `Word` is one of these things, written in full as one argument or two (`Word.texts`). What an argument is can be told
from its text (`Argument.ofTexts_words`), and reading the arguments adds to the request what each word says, one word
after the other (`Reading.take_words`). Words about different things do not interfere with each other, so what a
command line asks for can be told from what is among its words (`Says.exists_request`), and a width that is too long is
refused wherever it stands (`Says.ofArguments_of_long`).
-/

namespace Offside.Cli

/-- A section of a report. -/
inductive Section where
  | tokens
  | scopeLedger
  | outline
  | canonical
  deriving DecidableEq, Repr

/-- Every section, in the order in which they are shown. -/
def Section.all : List Section := [.tokens, .scopeLedger, .outline, .canonical]

/-- The switch that asks for a section. -/
def Section.switch : Section → Switch
  | .tokens => .tokens
  | .scopeLedger => .scopeLedger
  | .outline => .outline
  | .canonical => .canonical

/-- Something that a command line says. -/
inductive Word where
  /-- The source is in this file. -/
  | source (path : List Char)
  /-- This section is to be shown. -/
  | asks (s : Section)
  /-- A tab is so wide. The value may be attached to the name of the switch. -/
  | tabWidth (value : List Char) (attached : Bool)
  deriving DecidableEq, Repr

namespace Word

/-- The arguments that a word is written with. -/
def texts : Word → List (List Char)
  | .source path => [path]
  | .asks s => [s.switch.long.toList]
  | .tabWidth value false => [Switch.tabWidth.long.toList, value]
  | .tabWidth value true => [Switch.tabWidth.long.toList ++ '=' :: value]

/-- What these arguments are. -/
def arguments : Word → List Argument
  | .source path => [.plain path]
  | .asks s => [.long s.switch none]
  | .tabWidth value false => [.long .tabWidth none, .plain value]
  | .tabWidth value true => [.long .tabWidth (some value)]

/-- The source that a word names. -/
def source? : Word → Option (List Char)
  | .source path => some path
  | _ => none

/-- What a word gives as the width of a tab. -/
def tabWidth? : Word → Option (List Char)
  | .tabWidth value _ => some value
  | _ => none

/-- Nothing in the word looks like a switch and is none. -/
def IsPlain (w : Word) : Prop :=
  (∀ path ∈ w.source?, path.head? ≠ some '-') ∧ ∀ value ∈ w.tabWidth?, value.head? ≠ some '-'

/-- A request with what a word says. -/
def addTo (r : Request) : Word → Except Stop Request
  | .source path => .ok { r with source? := some path }
  | .asks s => r.add s.switch
  | .tabWidth value _ => r.addTabWidth value

end Word

variable {words : List Word}

/-! ### Arguments -/

theorem splitAtEquals_append {name : List Char} (h : '=' ∉ name) (value : List Char) :
    splitAtEquals (name ++ '=' :: value) = (name, some value) := by
  have before : ∀ c ∈ name, decide (c ≠ '=') = true := by
    intro c hc
    simpa using ne_of_mem_of_not_mem hc h
  rw [splitAtEquals, List.dropWhile_append_of_pos before, List.takeWhile_append_of_pos before]
  simp

namespace Argument

theorem ofText_plain {text : List Char} (h : text.head? ≠ some '-') : ofText text = .ok (.plain text) := by
  unfold ofText
  split
  · exact absurd rfl h
  · exact absurd rfl h
  · exact absurd rfl h
  · rfl

theorem ofText_switch (s : Section) : ofText s.switch.long.toList = .ok (.long s.switch none) := by
  cases s <;> rfl

theorem ofText_attached (value : List Char) :
    ofText (Switch.tabWidth.long.toList ++ '=' :: value) = .ok (.long .tabWidth (some value)) := by
  have split := splitAtEquals_append (show '=' ∉ Switch.tabWidth.long.toList by decide) value
  have named : Switch.ofLong? Switch.tabWidth.long.toList = some .tabWidth := rfl
  have long : Switch.tabWidth.long.toList ++ '=' :: value = '-' :: '-' :: 't' :: ("ab-width".toList ++ '=' :: value) :=
    rfl
  rw [long] at split ⊢
  rw [ofText, split]
  · simp only [named]
  · simp

theorem ofTexts_cons {text : List Char} {argument : Argument} {rest : List (List Char)} {others : List Argument}
    (h : ofText text = .ok argument) (other : argument ≠ .separator) (hs : ofTexts rest = .ok others) :
    ofTexts (text :: rest) = .ok (argument :: others) := by
  simp only [ofTexts, h, hs, bind, Except.bind]
  cases argument with
  | separator => exact absurd rfl other
  | _ => rfl

/-- **Plain words can be told from their texts.** -/
theorem ofTexts_words (plain : ∀ w ∈ words, w.IsPlain) :
    ofTexts (words.flatMap Word.texts) = .ok (words.flatMap Word.arguments) := by
  induction words with
  | nil => rfl
  | cons w rest ih =>
    have others := ih fun v hv => plain v (List.mem_cons_of_mem _ hv)
    obtain ⟨plain_source, plain_value⟩ := plain w List.mem_cons_self
    rw [List.flatMap_cons, List.flatMap_cons]
    cases w with
    | source path => exact ofTexts_cons (ofText_plain (plain_source path rfl)) nofun others
    | asks s => exact ofTexts_cons (ofText_switch s) nofun others
    | tabWidth value attached =>
      cases attached with
      | false =>
        have value_first := ofTexts_cons (ofText_plain (plain_value value rfl)) nofun others
        exact ofTexts_cons rfl nofun value_first
      | true => exact ofTexts_cons (ofText_attached value) nofun others

end Argument

theorem Word.eq_source_of_source? {w : Word} {path : List Char} (h : w.source? = some path) : w = .source path := by
  cases w with
  | source p => rw [Option.some.inj h]
  | _ => simp [source?] at h

theorem Word.separator_notMem_arguments (w : Word) : Argument.separator ∉ w.arguments := by
  cases w with
  | source | asks => simp [arguments]
  | tabWidth value attached => cases attached <;> simp [arguments]

/-! ### Requests -/

namespace Reading

variable {r : Reading} {rest : List Argument}

theorem take_plain (waiting : r.placed = false) (path : List Char) (h : Argument.separator ∉ rest) :
    r.take (.plain path :: rest) = (r.place (some path)).take rest := by
  cases rest with
  | nil => simp [take, waiting]
  | cons next more =>
    cases next with
    | separator => exact absurd List.mem_cons_self h
    | _ => simp [take, waiting]

theorem take_arguments {w : Word} (h : w.source? = none) :
    r.take (w.arguments ++ rest) = w.addTo r.request >>= fun request => take { r with request } rest := by
  cases w with
  | source path => simp [Word.source?] at h
  | asks s =>
    have valueless : s.switch.takesValue = false := by cases s <;> rfl
    simp [Word.arguments, take, valueless, Word.addTo]
  | tabWidth value attached =>
    cases attached with
    | false => rfl
    | true => simp [Word.arguments, take, Switch.takesValue, addAttached, Word.addTo]

theorem take_append (elsewhere : ∀ w ∈ words, w.source? = none) (r : Reading) (rest : List Argument) :
    r.take (words.flatMap Word.arguments ++ rest) =
      words.foldlM Word.addTo r.request >>= fun request => take { r with request } rest := by
  induction words generalizing r with
  | nil => rfl
  | cons w more ih =>
    rw [List.flatMap_cons, List.append_assoc, take_arguments (elsewhere w List.mem_cons_self), List.foldlM_cons,
      bind_assoc]
    congr 1
    funext request
    exact ih (fun v hv => elsewhere v (List.mem_cons_of_mem _ hv)) _

/-- **Words are taken one after the other** if one of them names the source. -/
theorem take_words {path : List Char} (one : words.filterMap Word.source? = [path]) :
    take {} (words.flatMap Word.arguments) =
      words.foldlM Word.addTo {} >>= fun request => .ok { request, placed := true } := by
  -- no word before the one that names the source and none after it is about the source
  obtain ⟨before, w, after, rfl, elsewhere, named, others⟩ := List.filterMap_eq_cons_iff.1 one
  obtain rfl := Word.eq_source_of_source? named
  have elsewhere' := List.filterMap_eq_nil_iff.1 others
  have apart : Argument.separator ∉ after.flatMap Word.arguments := by
    simp [Word.separator_notMem_arguments]
  rw [List.flatMap_append, List.flatMap_cons, take_append elsewhere, List.foldlM_append, bind_assoc]
  congr 1
  funext request
  have tail := take_append elsewhere' { request := { request with source? := some path }, placed := true } []
  rw [List.append_nil] at tail
  exact (take_plain rfl path apart).trans tail

end Reading

/-- What a request says about a section. -/
def Request.shows (r : Request) : Section → Bool
  | .tokens => r.tokens
  | .scopeLedger => r.scopeLedger
  | .outline => r.outline
  | .canonical => r.canonical

/-- A request for what the words say, the last of them where several are about the same. -/
structure Request.Reflects (r : Request) (words : List Word) : Prop where
  source : r.source? = (words.filterMap Word.source?).getLast?
  shows : ∀ s, r.shows s = true ↔ .asks s ∈ words
  tab : match (words.filterMap Word.tabWidth?).getLast? with
    | none => r.tab = .integer TabWidth.standard.columns
    | some value => ∃ n : Nat, Text.readPositive value = .ok n ∧ r.tab = .integer n
  builtIn : r.builtIn = false

/-- The width that the word gives, if any, can be read. -/
def Word.IsReadable (w : Word) : Prop := ∀ value ∈ w.tabWidth?, ∃ n, Text.readPositive value = .ok n

theorem Word.isReadable_of_silent {w : Word} (h : w.tabWidth? = none) : w.IsReadable := by
  intro value given
  simp [h] at given

namespace Request

variable {r : Request}

theorem reflects_nil : Reflects {} [] := ⟨rfl, by rintro (_ | _) <;> simp [shows], rfl, rfl⟩

theorem addTabWidth_of_readable {value : List Char} {n : Nat} (read : Text.readPositive value = .ok n) :
    r.addTabWidth value = .ok { r with tab := .integer n } := by
  have numeral : value ≠ ['-', '-'] := by
    rintro rfl
    exact nomatch read
  rw [addTabWidth, if_neg numeral, read]

theorem Reflects.add {w : Word} (h : r.Reflects words) (readable : w.IsReadable) :
    ∃ r', w.addTo r = .ok r' ∧ r'.Reflects (words ++ [w]) := by
  obtain ⟨source, shows, tab, builtIn⟩ := h
  cases w with
  | source path =>
    refine ⟨_, rfl, by simp [Word.source?], fun s => ?_, by simpa [Word.tabWidth?] using tab, builtIn⟩
    rw [List.mem_append, ← shows s]
    cases s <;> simp [Request.shows]
  | asks asked =>
    have rest : (words ++ [Word.asks asked]).filterMap Word.source? = words.filterMap Word.source? ∧
        (words ++ [Word.asks asked]).filterMap Word.tabWidth? = words.filterMap Word.tabWidth? := by
      simp [Word.source?, Word.tabWidth?]
    have also (s : Section) : Word.asks s ∈ words ++ [Word.asks asked] ↔ r.shows s = true ∨ s = asked := by
      simp [shows s]
    cases asked with
    | tokens | scopeLedger | outline | canonical =>
      refine ⟨_, rfl, rest.1 ▸ source, fun s => ?_, rest.2 ▸ tab, builtIn⟩
      rw [also]
      cases s <;> simp [Request.shows]
  | tabWidth value attached =>
    obtain ⟨n, read⟩ := readable value rfl
    refine ⟨_, addTabWidth_of_readable read, by simpa [Word.source?] using source, fun s => ?_, ?_, builtIn⟩
    · rw [List.mem_append, ← shows s]
      cases s <;> simp [Request.shows]
    · simp [Word.tabWidth?, read]

/-- **Readable words come to a request that reflects all of them.** -/
theorem exists_reflects (readable : ∀ w ∈ words, w.IsReadable) :
    ∃ r, words.foldlM Word.addTo {} = .ok r ∧ r.Reflects words := by
  -- from the end, since of several words about the same the last one counts
  induction words using List.reverseRecOn with
  | nil => exact ⟨{}, rfl, reflects_nil⟩
  | append_singleton before w ih =>
    obtain ⟨r, folded, reflects⟩ := ih fun v hv => readable v (List.mem_append_left _ hv)
    obtain ⟨r', added, reflects'⟩ := reflects.add (readable w (by simp))
    refine ⟨r', ?_, reflects'⟩
    rw [List.foldlM_append, folded]
    simp [bind, Except.bind, pure, Except.pure, added]

end Request

/-! ### Whole command lines -/

/-- The numerals give the width of a tab. There is at most one, and where there is none, the width is the standard
one. -/
inductive Gives : List (List Char) → TabWidth → Prop
  | standard : Gives [] .standard
  | numeral {value : List Char} {tab : TabWidth} (spells : Text.Spells value tab.columns) : Gives [value] tab

/-- The words name one source, which does not look like a switch, and give the width of a tab. -/
structure Says (words : List Word) (path : List Char) (tab : TabWidth) : Prop where
  source : words.filterMap Word.source? = [path]
  plain : path.head? ≠ some '-'
  tabWidth : Gives (words.filterMap Word.tabWidth?) tab

namespace Says

variable {path : List Char} {tab : TabWidth}

/-- Whatever is given as the width of a tab spells it. -/
theorem spells (h : Says words path tab) {value : List Char} (mem : value ∈ words.filterMap Word.tabWidth?) :
    Text.Spells value tab.columns := by
  obtain ⟨-, -, gives⟩ := h
  generalize words.filterMap Word.tabWidth? = numerals at gives mem
  cases gives with
  | standard => simp at mem
  | numeral spells => rwa [List.mem_singleton.1 mem]

theorem isPlain (h : Says words path tab) : ∀ w ∈ words, w.IsPlain := by
  intro w mem
  constructor
  · intro path' named
    have among : path' ∈ words.filterMap Word.source? := List.mem_filterMap.2 ⟨w, mem, named⟩
    rw [h.source, List.mem_singleton] at among
    exact among ▸ h.plain
  · intro value given
    exact (h.spells (List.mem_filterMap.2 ⟨w, mem, given⟩)).head?_ne rfl

theorem ofArguments_eq (h : Says words path tab) :
    Request.ofArguments (words.flatMap Word.texts) = words.foldlM Word.addTo {} := by
  simp only [Request.ofArguments, Argument.ofTexts_words h.isPlain, Except.mapError, bind, Except.bind,
    Reading.take_words h.source]
  cases words.foldlM Word.addTo {} <;> rfl

/-- **A command line comes to a request for what it says**, in whatever order it says it. -/
theorem exists_request (h : Says words path tab)
    (short : ∀ value ∈ words.filterMap Word.tabWidth?, value.length ≤ Text.longestNumeral) :
    ∃ r, Request.ofArguments (words.flatMap Word.texts) = .ok r ∧ r.source? = some path ∧ r.builtIn = false ∧
      r.tab = .integer tab.columns ∧ ∀ s, r.shows s = true ↔ .asks s ∈ words := by
  have read {value : List Char} (mem : value ∈ words.filterMap Word.tabWidth?) :
      Text.readPositive value = .ok tab.columns := by
    rw [(h.spells mem).readPositive_eq tab.columns_pos, if_pos (short value mem)]
  obtain ⟨r, folded, reflects⟩ := Request.exists_reflects fun w mem value given =>
    ⟨_, read (List.mem_filterMap.2 ⟨w, mem, given⟩)⟩
  refine ⟨r, h.ofArguments_eq.trans folded, by rw [reflects.source, h.source]; rfl, reflects.builtIn, ?_,
    reflects.shows⟩
  have width := reflects.tab
  have gives := h.tabWidth
  generalize words.filterMap Word.tabWidth? = numerals at gives width read
  cases gives with
  | standard => exact width
  | @numeral value _ _ =>
    obtain ⟨n, found, width⟩ := width
    rw [width, Except.ok.inj (found.symm.trans (read (List.mem_singleton_self value)))]

/-- **A width with too many digits is refused**, wherever it stands. -/
theorem ofArguments_of_long (h : Says words path tab) {value : List Char}
    (mem : value ∈ words.filterMap Word.tabWidth?) (long : Text.longestNumeral < value.length) :
    Request.ofArguments (words.flatMap Word.texts) = .error (.usage (.invalidValue .tabWidth ⟨value⟩)) := by
  have only : words.filterMap Word.tabWidth? = [value] := by
    have gives := h.tabWidth
    generalize words.filterMap Word.tabWidth? = numerals at gives mem
    cases gives with
    | standard => simp at mem
    | numeral _ => rw [List.mem_singleton.1 mem]
  obtain ⟨before, w, after, rfl, elsewhere, given, -⟩ := List.filterMap_eq_cons_iff.1 only
  -- the words before the width are all read, and what stands after it is not looked at any more
  obtain ⟨r, folded, -⟩ := Request.exists_reflects (fun v hv => Word.isReadable_of_silent (elsewhere v hv))
  have refused : w.addTo r = .error (.usage (.invalidValue .tabWidth ⟨value⟩)) := by
    have numeral : value ≠ ['-', '-'] := by
      rintro rfl
      exact (h.spells mem).head?_ne rfl rfl
    have unread := (h.spells mem).readPositive_eq tab.columns_pos
    rw [if_neg (by omega)] at unread
    cases w with
    | tabWidth value' attached =>
      obtain rfl := Option.some.inj given
      simp [Word.addTo, Request.addTabWidth, numeral, unread]
    | _ => simp [Word.tabWidth?] at given
  rw [h.ofArguments_eq, List.foldlM_append, folded]
  simp only [bind, Except.bind, List.foldlM_cons, refused]

end Says

end Offside.Cli
