/-!
# The comment sign

One sign begins a comment, on a line of its own as well as after code.
-/

namespace Offside

/-- The sign that begins a comment. -/
def commentSign : Char := '$'

end Offside
