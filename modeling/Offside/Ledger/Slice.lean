import Offside.Ledger.Basic

/-!
# Slices

A slice takes every so-manieth entry from one place to another, forwards or backwards. The model: a slice
has a start, a stop and a step, each of which may be left out. Negative places count from the end, and
places beyond either end are brought back to it. `Slice.positions` gives the numbers of the entries taken,
in the order in which they are taken.
-/

namespace Offside

/-- Which entries of a list to take. -/
structure Slice where
  start? : Option Int := none
  stop? : Option Int := none
  step? : Option Int := none
  deriving DecidableEq, Repr

/-- A place in a list of `n` entries, brought between two ends. -/
def Slice.clamp (n : Nat) (low high place : Int) : Int :=
  let i := if place < 0 then place + n else place
  max low (min high i)

/-- The numbers of the entries taken from a list of `n`, for a step that is not zero. -/
def Slice.positions (slice : Slice) (n : Nat) (step : Int) : List Nat :=
  let (low, high) : Int × Int := if 0 < step then (0, n) else (-1, n - 1)
  let (first, last) : Int × Int := if 0 < step then (low, high) else (high, low)
  let start := (slice.start?.map (clamp n low high)).getD first
  let stop := (slice.stop?.map (clamp n low high)).getD last
  let gap := if 0 < step then stop - start else start - stop
  let count := (gap + step.natAbs - 1).toNat / step.natAbs
  (List.range count).map fun (k : Nat) => (start + (k : Int) * step).toNat

/-- The entries that a slice takes. -/
def Ledger.slice (l : Ledger) (slice : Slice) : Except Ledger.Fault (List Layout.Scope) :=
  let step := slice.step?.getD 1
  if step = 0 then .error .zeroStep
  else .ok ((slice.positions l.size step).filterMap (l.entries[·]?))

end Offside
