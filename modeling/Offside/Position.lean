/-!
# Positions

Entries of a list and columns of a line are counted by the integers of 64 bits, negative ones included; a
number beyond these counts nothing.
-/

namespace Offside

/-- The number can count a position. -/
def isPosition (n : Int) : Bool := -0x8000000000000000 ≤ n && n < 0x8000000000000000

end Offside
