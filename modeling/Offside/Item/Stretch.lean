import Offside.ParseError

/-!
# Stretches of items

A list of layout tokens is turned into items one token after the other, until a token says that the
source ends or a code line cannot be cut into lexemes. The model: `Stretch.ofTokens` gives the items up to there,
the error if there is one, and the tokens after the one it stopped at, from which the next stretch can be
taken. Each token is used once.
-/

namespace Offside

open Layout (Token)

/-- The items up to the first stop. -/
structure Stretch where
  items : List Item := []
  /-- The fault of the code line at which it stopped. -/
  failure? : Option ParseError := none
  /-- The tokens not used. -/
  rest : List Token := []
  deriving DecidableEq, Repr

/-- A stretch with more items in front. -/
def Stretch.after (items : List Item) (s : Stretch) : Stretch := { s with items := items ++ s.items }

/-- The first stretch of a list of tokens. -/
def Stretch.ofTokens : List Token → Stretch
  | [] => {}
  | t :: rest =>
    match t.kind with
    | .indent => (ofTokens rest).after [.ofToken .indent t]
    | .dedent => (ofTokens rest).after [.ofToken .dedent t]
    | .newline => (ofTokens rest).after [.ofToken .newline t]
    | .endOfFile => { rest }
    | .code =>
      let cut := Lexeme.lex t.payload
      let items := cut.lexemes.map (Item.ofLexeme t)
      match cut.stop? with
      | none => (ofTokens rest).after items
      | some stop => { items, failure? := some (.ofStop t stop), rest }

/-- The tokens left after so many stretches. -/
def Stretch.tokensAfter : Nat → List Token → List Token
  | 0, tokens => tokens
  | n + 1, tokens => tokensAfter n (ofTokens tokens).rest

/-! ### Laws -/

@[simp] theorem Stretch.items_after (items : List Item) (s : Stretch) :
    (s.after items).items = items ++ s.items := rfl

@[simp] theorem Stretch.failure?_after (items : List Item) (s : Stretch) :
    (s.after items).failure? = s.failure? := rfl

@[simp] theorem Stretch.rest_after (items : List Item) (s : Stretch) :
    (s.after items).rest = s.rest := rfl

end Offside
