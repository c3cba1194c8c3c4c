import Offside.Ledger.Basic
import Offside.Text.Numeral

/-!
# Ledger listings

A ledger is shown in two ways: for a reader, one scope to a line under a heading (`listing`), and in one
line with every field named (`display`).
-/

namespace Offside.Ledger

open Layout (Scope)

/-- A scope's line in a listing. -/
def listingLine (number : Nat) (s : Scope) : String :=
  "Scope " ++ toString number ++ ": Level=" ++ toString s.level ++ ", Line=" ++ toString s.line
    ++ ", Type=" ++ s.category.name

/-- The scopes one to a line under a heading. -/
def listing (l : Ledger) : String :=
  "\n".intercalate ("=== Scope Ledger (Lateral Navigation Map) ===" ::
    l.entries.zipIdx.map fun (s, number) => listingLine number s)

/-- The numbers in the listing can be written. -/
def isWritable (l : Ledger) : Bool :=
  l.entries.all fun s => Text.isWritable s.level && Text.isWritable s.line

/-- A scope with its fields named. -/
def displayScope (s : Scope) : String :=
  "ScopeInfo(indent_level=" ++ toString s.level ++ ", line=" ++ toString s.line ++ ", scope_type="
    ++ Text.quote s.category.name.toList ++ ")"

/-- The ledger in one line. -/
def display (l : Ledger) : String :=
  "ScopeLedger([" ++ ", ".intercalate (l.entries.map displayScope) ++ "])"

end Offside.Ledger
