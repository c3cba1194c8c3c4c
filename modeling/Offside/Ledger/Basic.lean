import Offside.Layout.Scope
import Offside.Position

/-!
# Ledgers

A ledger lists the scopes of a source in the order in which they open. The model: `Ledger` is a list of
scopes; entries are numbered from zero, and in a look-up a negative number counts from the end. An
operation that asks for something that is not there names what is missing.
-/

namespace Offside

open Layout (Scope Category)

/-- Scopes in the order in which they open. -/
structure Ledger where
  entries : List Scope := []
  deriving DecidableEq, Repr

namespace Ledger

/-- Why a ledger has no answer. -/
inductive Fault where
  /-- Navigation starts from an entry that there is not. -/
  | noScope (index : Int)
  /-- A look-up asks for an entry that there is not. -/
  | noEntry
  /-- A look-up asks for an entry so far off that the number is no position. -/
  | noPosition
  /-- A slice does not move. -/
  | zeroStep
  /-- The scope that is searched for is not in the ledger. -/
  | notFound
  deriving DecidableEq, Repr

/-- The wording of a fault. -/
def Fault.message : Fault → String
  | .noScope index => "scope index " ++ toString index ++ " out of range"
  | .noEntry => "tuple index out of range"
  | .noPosition => "cannot fit 'int' into an index-sized integer"
  | .zeroStep => "slice step cannot be zero"
  | .notFound => ""

/-- How many scopes there are. -/
def size (l : Ledger) : Nat := l.entries.length

/-- The levels of the scopes. -/
def levels (l : Ledger) : List Int := l.entries.map Scope.level

/-- The entry of a number, from the end if that is negative. -/
def get (l : Ledger) (index : Int) : Except Fault Scope :=
  if !isPosition index then .error .noPosition
  else
    let i := if index < 0 then index + l.size else index
    match if 0 ≤ i then l.entries[i.toNat]? else none with
    | some s => .ok s
    | none => .error .noEntry

/-- The number of the first entry that is the given scope. -/
def indexOf (l : Ledger) (s : Scope) : Except Fault Nat :=
  match l.entries.idxOf? s with
  | some i => .ok i
  | none => .error .notFound

/-- How often a scope is entered. -/
def count (l : Ledger) (s : Scope) : Nat := l.entries.count s

/-- The scope is entered. -/
def contains (l : Ledger) (s : Scope) : Bool := l.entries.contains s

/-- The scopes from the last to the first. -/
def reversed (l : Ledger) : List Scope := l.entries.reverse

/-- What a ledger can be compared with. -/
inductive Comparand where
  /-- Scopes, as a ledger or as a list of another sort. -/
  | scopes (entries : List Scope)
  /-- A passage through scopes, which is no list of them. -/
  | passage (entries : List Scope)
  deriving DecidableEq, Repr

/-- The ledger is equal to something that lists scopes when its entries are. -/
def equals (l : Ledger) : Comparand → Bool
  | .scopes entries => l.entries = entries
  | .passage _ => false

/-- The scopes of a category. -/
def ofCategory (l : Ledger) (c : Category) : List Scope := l.entries.filter (·.category = c)

end Ledger

end Offside
