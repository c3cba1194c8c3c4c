import Offside.Layout.Canonical
import Offside.Ledger.Siblings
import Offside.Log.Basic
import Offside.Source.Folder
import Offside.Tree.Outline

/-!
# Models of sources

A source comes from a file or is given as text; its model holds it together with its layout, and gives its
tree, its outline and its canonical text. The model: `Model.load` takes the source from where it
comes (`Origin`) and lays it out; the bytes of a file are read as UTF-8 and each of the three
spellings of a line end in it becomes a line feed, while a text is taken as it is. The tree is read only
when it is asked for, so a source that is no program has a model too.
-/

namespace Offside

open Source (Files Obstacle)

/-- Where a source comes from. -/
inductive Origin where
  | file (path : List Char)
  | text (source : List Char)
  deriving DecidableEq, Repr

/-- A source and its layout. -/
structure Model where
  origin : Origin
  tab : TabWidth
  source : List Char
  /-- The layout without tokens for the ends of lines. -/
  result : Layout.Result
  deriving DecidableEq, Repr

namespace Model

/-- Why there is no model, or it does not give what is asked of it. -/
inductive Fault where
  /-- Not exactly one of file and text is given. -/
  | origin
  | setting (e : InvalidSetting)
  | file (path : List Char) (e : Obstacle)
  | encoding (e : Text.Utf8.Fault)
  /-- Something is to be said on the way that cannot be worded. -/
  | unwritable (e : Text.Unwritable)
  | parse (e : ParseError)
  | outline (e : Outline.Fault)
  deriving DecidableEq, Repr

/-- The wording of a fault. -/
def Fault.message : Fault → String
  | .origin => "exactly one of from_file or from_string is required"
  | .setting e => e.message
  | .file path e => e.message path
  | .encoding e => e.message
  | .unwritable e => e.message
  | .parse e => e.message
  | .outline e => e.message

/-- The origin that is meant when a file, a text, both or neither are given. -/
def originOf : Option (List Char) → Option (List Char) → Except Fault Origin
  | some path, none => .ok (.file path)
  | none, some text => .ok (.text text)
  | _, _ => .error .origin

/-- The source that comes from there. -/
def sourceOf (files : Files) : Origin → Except Fault (List Char)
  | .text source => .ok source
  | .file path =>
    match files path with
    | .error e => .error (.file path e)
    | .ok bytes =>
      match Text.Utf8.decode bytes with
      | .error e => .error (.encoding e)
      | .ok text => .ok (Text.unifyReturns text)

/-- The model of the source that comes from there. -/
def load (files : Files) (tab : TabWidth) (origin : Origin) : Except Fault Model := do
  let source ← sourceOf files origin
  let result ← (Layout.run { tabWidth := tab.columns } source).worded.mapError .unwritable
  return ⟨origin, tab, source, result⟩

/-- The model of a file or a text, under a tab width that is given as a setting. Of several faults the
first in the order of these three steps is told. -/
def make (files : Files) (file? text? : Option (List Char)) (tab : Setting) : Except Fault Model := do
  let origin ← originOf file? text?
  let tab ← (TabWidth.ofSetting tab).mapError .setting
  load files tab origin

/-- What loading a model notes: that a file is read, and how the source is laid out. -/
def loadRecords (files : Files) (tab : TabWidth) (origin : Origin) : List Log.Record :=
  (match origin with
    | .file path => [⟨.model, .info, "Reading source file: " ++ String.ofList path⟩]
    | .text _ => []) ++
  match sourceOf files origin with
  | .ok source => Log.ofResult (Layout.run { tabWidth := tab.columns } source)
  | .error _ => []

/-- What making a model notes. -/
def makeRecords (files : Files) (file? text? : Option (List Char)) (tab : Setting) :
    List Log.Record :=
  match originOf file? text?, TabWidth.ofSetting tab with
  | .ok origin, .ok tab => loadRecords files tab origin
  | _, _ => []

/-- The scopes of the source. -/
def ledger (m : Model) : Ledger := ⟨m.result.scopes⟩

/-- The program that the source spells. -/
def program (m : Model) : Except Fault Program :=
  (Program.ofSource m.tab m.source).mapError fun
    | .parse e => .parse e
    | .unwritable e => .unwritable e

/-- The outline of the program that the source spells. -/
def outline (m : Model) : Except Fault (List Heading) := do
  let p ← m.program
  p.outline.mapError .outline

/-- What asking for the outline notes. -/
def outlineRecords (m : Model) : List Log.Record := Log.ofParse m.tab m.source

/-- The source written out with a fixed step of indentation. -/
def canonical (m : Model) (step : IndentWidth := .standard) : List Char :=
  Layout.render step m.result.tokens

/-- The source written out with a fixed step of indentation, unless a margin is wider than there is room for. -/
def writeOut (m : Model) (room : Int) (step : IndentWidth) : Except Layout.TooWide (List Char) :=
  Layout.writeOut room step m.result.tokens

end Model

end Offside
