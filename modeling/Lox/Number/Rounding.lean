import Lox.Number.Basic

/-!
The number nearest to an exact quotient. Halfway cases go to the even neighbour, and what is
too large becomes infinity. Decimal literals are read this way.
-/

set_option autoImplicit false

namespace Lox

/-- The whole number nearest to a quotient; a half goes to the even neighbour. -/
def nearestWhole (num den : Nat) : Nat :=
  let quotient := num / den
  let twice := 2 * (num % den)
  if twice < den then quotient
  else if den < twice then quotient + 1
  else quotient + quotient % 2

namespace Number

/-- Least scale at which a number of that many units fits the significand. -/
def scaleFor (units : Nat) : Nat := units.log2 + 1 - 53

/-- Nearest number to the quotient. A significand that rounds up to the next power of two
carries into the exponent field, which is the right pattern. -/
def ofQuotient (num den : Nat) : Number :=
  let scaled := num * unitsPerOne
  let scale := scaleFor (scaled / den)
  let pattern := scale * fieldWeight + nearestWhole scaled (den * Nat.pow 2 scale)
  ⟨UInt64.ofNat (if pattern < infinityBits then pattern else infinityBits)⟩

/-- Number written with these digits, of which the last `places` follow the point. -/
def ofDigits (digits places : Nat) : Number := ofQuotient digits (Nat.pow 10 places)

end Number

end Lox
