/-!
Ranges of code points, for tables of character properties.
-/

set_option autoImplicit false

namespace Lox

/-- The code points from `first` to `last`, both included. -/
structure CodeRange where
  first : Nat
  last : Nat
deriving DecidableEq

def CodeRange.contains (r : CodeRange) (c : Char) : Bool :=
  decide (r.first ≤ c.toNat) && decide (c.toNat ≤ r.last)

/-- Whether a character lies in one of the ranges. -/
def CodeRange.anyContains (ranges : List CodeRange) (c : Char) : Bool :=
  ranges.any fun r ↦ r.contains c

end Lox
