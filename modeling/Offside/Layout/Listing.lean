import Offside.Layout.Token

/-!
# Token listings

Tokens are listed for a reader one to a line, each with its line number and a label for its kind;
only the content of a code line is shown after the label.
-/

namespace Offside.Layout

/-- The label of a kind in a listing. -/
def Kind.label : Kind → String
  | .indent => "[INDENT]"
  | .dedent => "[DEDENT]"
  | .newline => "[NEWLINE]"
  | .code => "[CODE]"
  | .endOfFile => "[EOF]"

/-- A token's line in a listing. -/
def Token.display (t : Token) : String :=
  let shown := "Line " ++ toString t.line ++ ": " ++ t.kind.label
  if t.kind = .code then shown ++ " " ++ String.ofList t.payload else shown

/-- Tokens listed one to a line. -/
def listing (tokens : List Token) : String :=
  "\n".intercalate (tokens.map Token.display)

end Offside.Layout
