/-!
# Layout tokens

Layout turns the margins of a source into tokens of their own: one where a scope opens, one where it
closes, one for the content of each code line, and one at the end. A token for the end of each line
can be asked for. The model: a token has a kind, a text and a place. For the tokens that layout adds
the text is fixed (`Token.indent` and those after it), but a token entered by hand may have any.
-/

namespace Offside.Layout

/-- What a token stands for. -/
inductive Kind where
  /-- A scope opens. -/
  | indent
  /-- A scope closes. -/
  | dedent
  /-- A code line ends. -/
  | newline
  /-- The content of a code line. -/
  | code
  /-- The source ends. -/
  | endOfFile
  deriving DecidableEq, Repr

/-- A token of a laid out source. -/
structure Token where
  kind : Kind
  payload : List Char
  line : Int
  column : Int := 0
  deriving DecidableEq, Repr

namespace Token

/-- The token before the line that opens a scope. -/
def indent (line : Int) : Token := ⟨.indent, "<INDENT>".toList, line, 0⟩

/-- The token where a scope closes. -/
def dedent (line : Int) : Token := ⟨.dedent, "<DEDENT>".toList, line, 0⟩

/-- The token for a line's content, which begins in the given column. -/
def code (content : List Char) (line column : Int) : Token := ⟨.code, content, line, column⟩

/-- The token where a line ends, in the column after its content. -/
def newline (line column : Int) : Token := ⟨.newline, ['\n'], line, column⟩

/-- The token at the end of a source. -/
def endOfFile (line : Int) : Token := ⟨.endOfFile, "<EOF>".toList, line, 0⟩

end Token

/-- The scopes that tokens leave open: those they open less those they close. -/
def depth (tokens : List Token) : Int :=
  (tokens.countP (·.kind == .indent) : Int) - tokens.countP (·.kind == .dedent)

/-- How many more scopes are open after a token than before it. -/
def Kind.change : Kind → Int
  | .indent => 1
  | .dedent => -1
  | .newline | .code | .endOfFile => 0

/-! ### Laws -/

@[simp] theorem depth_nil : depth [] = 0 := rfl

@[simp] theorem depth_cons (t : Token) (rest : List Token) :
    depth (t :: rest) = t.kind.change + depth rest := by
  obtain ⟨kind, payload, line, column⟩ := t
  cases kind <;> simp [depth, Kind.change] <;> omega

@[simp] theorem depth_append (first second : List Token) :
    depth (first ++ second) = depth first + depth second := by
  induction first with
  | nil => simp
  | cons t rest ih => simp [ih, Int.add_assoc]

end Offside.Layout
