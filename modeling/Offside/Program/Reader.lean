import Offside.Layout.Run
import Offside.Program.Block
import Offside.Setting
import Offside.Item.Stretch

/-!
# Reading programs

A program is read from its items one at a time, and the first item that continues no program is the one
to complain about. The model: a `Reader` is what has been read so far, namely the suites begun and not
yet ended, the statements of the innermost of them, and the items of the line being read; `feed?` takes
one item more. What is complained about is the first fault in the source, be it a character that begins
no lexeme or an item out of place, since items are fed only up to the first such character.
-/

namespace Offside

/-- A suite that has begun, and what it belongs to. -/
inductive Frame where
  /-- The suite that no line owns. -/
  | leading (place : Place)
  /-- The suite of a statement, with the statements before that. -/
  | suite (before : Block) (header : List Item) (place : Place)
  deriving DecidableEq, Repr

/-- A program as far as it has been read. -/
structure Reader where
  /-- The suites that have begun and not ended, innermost first. -/
  frames : List Frame := []
  /-- The suite that no line owns, when it has ended. -/
  leading? : Option (Place × Block) := none
  /-- The statements of the innermost suite, or of the program outside all suites. -/
  block : Block := .empty
  /-- The items of the line being read. -/
  items : List Item := []
  deriving DecidableEq, Repr

namespace Reader

/-- A suite opens below the last statement, if that owns none, or before all statements. -/
def openSuite? (r : Reader) (place : Place) : Option Reader :=
  match r.block, r.frames, r.leading? with
  | .line before header, _, _ =>
    some { r with frames := .suite before header place :: r.frames, block := .empty }
  | .empty, [], none => some { r with frames := [.leading place] }
  | _, _, _ => none

/-- The innermost suite ends, if it has a statement. -/
def closeSuite? (r : Reader) : Option Reader :=
  match r.block, r.frames with
  | .empty, _ => none
  | _, [] => none
  | suite, .leading place :: outer =>
    some { r with frames := outer, leading? := some (place, suite), block := .empty }
  | suite, .suite before header place :: outer =>
    some { r with frames := outer, block := .group before header place suite }

/-- Takes one more item, unless no program goes on with it. -/
def feed? (r : Reader) (item : Item) : Option Reader :=
  match item.symbol with
  | .lexeme _ => some { r with items := r.items ++ [item] }
  | .newline =>
    if r.items.isEmpty then none else some { r with block := .line r.block r.items, items := [] }
  | .indent => if r.items.isEmpty then r.openSuite? item.place else none
  | .dedent => if r.items.isEmpty then r.closeSuite? else none

/-- Takes items one after the other. The error names the first that is out of place. -/
def feedAll (r : Reader) : List Item → Except ParseError Reader
  | [] => .ok r
  | item :: rest =>
    match r.feed? item with
    | some r' => r'.feedAll rest
    | none => .error (.ofItem item)

/-- The program, if it may end here. -/
def finish (r : Reader) : Except ParseError Program :=
  if r.frames.isEmpty && r.items.isEmpty then .ok ⟨r.leading?, r.block⟩
  else .error { cause := .unexpectedEnd }

theorem feedAll_append (r : Reader) (first second : List Item) :
    r.feedAll (first ++ second) = r.feedAll first >>= fun r' => r'.feedAll second := by
  induction first generalizing r with
  | nil => rfl
  | cons item rest ih =>
    simp only [List.cons_append, feedAll]
    cases r.feed? item with
    | none => rfl
    | some r' => exact ih r'

end Reader

/-- The program that a stretch of items spells, or the first fault in it. -/
def Program.ofStretch (s : Stretch) : Except ParseError Program := do
  let r ← Reader.feedAll {} s.items
  match s.failure? with
  | some e => .error e
  | none => r.finish

/-- The layout that a program is read from: the ends of lines count. -/
def TabWidth.lineOptions (tab : TabWidth) : Layout.Options :=
  { tabWidth := tab.columns, newlines := true }

/-- The name that reading under a tab width goes by: the standard width needs no mention. -/
def TabWidth.lexerName (tab : TabWidth) : String :=
  if tab = .standard then "MYAIndentedLexer" else "MYAIndentedLexer" ++ toString tab.columns

/-- The items of a source. -/
def Stretch.ofSource (tab : TabWidth) (source : List Char) : Stretch :=
  ofTokens (Layout.run tab.lineOptions source).tokens

/-- The items of a source all of whose diagnostics could be worded. -/
def Stretch.ofWordedSource (tab : TabWidth) (source : List Char) : Except Text.Unwritable Stretch := do
  return ofTokens (← (Layout.run tab.lineOptions source).worded).tokens

/-- The program of a source. -/
def parse (tab : TabWidth) (source : List Char) : Except ParseError Program :=
  Program.ofStretch (.ofSource tab source)

/-- Why a program is not told. -/
inductive Program.Fault where
  /-- The source spells none. -/
  | parse (e : ParseError)
  /-- Something is to be said on the way that cannot be worded. -/
  | unwritable (e : Text.Unwritable)
  deriving DecidableEq, Repr

/-- The program of a source, told together with the diagnostics of its layout or its parse error, so that
these have to be worded. -/
def Program.ofSource (tab : TabWidth) (source : List Char) : Except Program.Fault Program :=
  match Stretch.ofWordedSource tab source with
  | .error e => .error (.unwritable e)
  | .ok s =>
    match Program.ofStretch s with
    | .ok p => .ok p
    | .error e =>
      match e.worded with
      | .ok e => .error (.parse e)
      | .error e => .error (.unwritable e)

/-- The items of a source do not depend on whether its diagnostics are worded. -/
theorem Stretch.eq_ofSource_of_worded {tab : TabWidth} {source : List Char} {s : Stretch}
    (h : ofWordedSource tab source = .ok s) : s = ofSource tab source := by
  unfold ofWordedSource at h
  cases hw : (Layout.run tab.lineOptions source).worded with
  | error e => simp [hw, bind, Except.bind] at h
  | ok r =>
    obtain ⟨rfl, -⟩ := Layout.Result.worded_eq_ok_iff.1 hw
    simp only [hw, bind, Except.bind, pure, Except.pure, Except.ok.injEq] at h
    exact h.symm

theorem Program.parse_of_ofSource {tab : TabWidth} {source : List Char} {p : Program}
    (h : Program.ofSource tab source = .ok p) : parse tab source = .ok p := by
  unfold ofSource at h
  split at h
  · simp at h
  · rename_i s hs
    obtain rfl := Stretch.eq_ofSource_of_worded hs
    split at h
    · rename_i q hq
      obtain rfl := Except.ok.inj h
      exact hq
    · split at h <;> simp at h

end Offside
