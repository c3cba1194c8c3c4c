/-!
# Actions in a row

Something is kept while one acts, and an action changes it: it goes well and gives a value, or it ends early. What is
done then starts with what the first action leaves, or is not done.
-/

namespace Offside

variable {ε σ α β : Type} {first : EStateM ε σ α} {s t : σ}

theorem bind_of_ok {a : α} (h : first s = .ok a t) (second : α → EStateM ε σ β) :
    (first >>= second) s = second a t := by
  change EStateM.bind first second s = second a t
  rw [EStateM.bind, h]

theorem bind_of_error {e : ε} (h : first s = .error e t) (second : α → EStateM ε σ β) :
    (first >>= second) s = .error e t := by
  change EStateM.bind first second s = .error e t
  rw [EStateM.bind, h]

end Offside
