import Lox.Number.Rounding

/-!
The shortest decimal that reads back as a given number. A grid holds the multiples of one
power of ten. The coarsest grid with a point that reads back gives the fewest digits, and
when any point of a grid reads back so does one of the two points around the number itself.
-/

set_option autoImplicit false

namespace Lox

/-- The value `coefficient` times ten to the `exponent`. -/
structure Decimal where
  coefficient : Nat
  exponent : Int
deriving DecidableEq

/-- Which of two equally near decimals is taken. -/
inductive Tie
  | up
  | even
deriving DecidableEq

def Tie.goesUp (tie : Tie) (low : Nat) : Bool :=
  match tie with
  | .up => true
  | .even => low % 2 == 1

namespace Number

/-- Every finite number has at most this many decimal places. -/
def places : Nat := 1074

/-- Absolute value of a finite number times ten to the `places`, a whole number. -/
def exactCoefficient (n : Number) : Nat := n.units * Nat.pow 5 places

def readsBack (n : Number) (coefficient : Nat) : Bool :=
  decide (ofDigits coefficient places = n.abs)

/-- The better of the two points around a whole number on a grid of this step, among those that
pass, counted in steps. -/
def pointAround? (tie : Tie) (passes : Nat → Bool) (whole step : Nat) : Option Nat :=
  let low := whole / step
  let twice := 2 * (whole % step)
  let high := low + 1
  match passes (low * step), passes (high * step) with
  | false, false => none
  | true, false => some low
  | false, true => some high
  | true, true =>
    if twice < step then some low
    else if step < twice then some high
    else some (if tie.goesUp low then high else low)

/-- The better point of the grid of step ten to the `grid` that reads back as `n`, if there
is one, counted in steps. -/
def gridPoint? (tie : Tie) (n : Number) (grid : Nat) : Option Nat :=
  pointAround? tie n.readsBack n.exactCoefficient (Nat.pow 10 grid)

/-- Coarsest decimal from the given grid on, of the points that the grids give. The finest grid
always gives one. -/
def coarsestFrom (point? : Nat → Option Nat) (finest : Nat) : Nat → Decimal
  | 0 => ⟨finest, -(places : Int)⟩
  | grid + 1 =>
    match point? (grid + 1) with
    | some coefficient => ⟨coefficient, (grid + 1 : Int) - (places : Int)⟩
    | none => coarsestFrom point? finest grid

/-- Shortest decimal for the absolute value of a finite number other than zero. The finest grid
holds the number itself. -/
def shortest (tie : Tie) (n : Number) : Decimal :=
  coarsestFrom (gridPoint? tie n) n.exactCoefficient
    (places + (Nat.toDigits 10 n.wholePart).length)

end Number

end Lox
