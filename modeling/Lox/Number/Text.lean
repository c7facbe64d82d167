import Lox.Number.Shortest

/-!
The four written forms of a number. All of them show the shortest decimal that reads back,
or the exact value of a whole number; they differ in where they leave positional notation,
in the mark of a whole number, and in the names of what is not finite.
-/

set_option autoImplicit false

namespace Lox

namespace Decimal

def digits (d : Decimal) : List Char := Nat.toDigits 10 d.coefficient

/-- Exponent of the form with one digit before the point. -/
def leadingExponent (d : Decimal) : Int := d.exponent + (d.digits.length : Int) - 1

/-- Positional form of the digits, the last `places` of them after the point. -/
def withPoint (digits : List Char) (places : Nat) : List Char :=
  let padded := List.replicate (places + 1 - digits.length) '0' ++ digits
  let whole := padded.length - places
  padded.take whole ++ '.' :: padded.drop whole

/-- Positional form. A whole decimal has no point. -/
def plain (d : Decimal) : List Char :=
  match d.exponent with
  | .ofNat zeros => d.digits ++ List.replicate zeros '0'
  | .negSucc less => withPoint d.digits (less + 1)

/-- The digits with a point after the first, if more than one is there. -/
def mantissa (d : Decimal) : List Char :=
  match d.digits with
  | first :: second :: rest => first :: '.' :: second :: rest
  | digits => digits

end Decimal

namespace Number

def wholeDigits (n : Number) : List Char := Nat.toDigits 10 n.wholePart

def signed (n : Number) (body : List Char) : String :=
  String.ofList (if n.isNegative then '-' :: body else body)

/-- Printed values are positional from a thousandth up to ten million. -/
def isMidRange (n : Number) : Bool :=
  n.isZero || (decide (unitsPerOne ≤ n.units * 1000) && decide (n.units < 10000000 * unitsPerOne))

def exponentDigits (exponent : Int) : List Char :=
  let digits := Nat.toDigits 10 exponent.natAbs
  if exponent < 0 then '-' :: digits else digits

def scientific (n : Number) : List Char :=
  let d := n.shortest .up
  let mantissa := if d.coefficient < 10 then d.mantissa ++ ['.', '0'] else d.mantissa
  mantissa ++ 'E' :: exponentDigits d.leadingExponent

/-- What printing a value shows. -/
def text (n : Number) : String :=
  if n.isNaN then "NaN"
  else if n.isInfinite then n.signed "Infinity".toList
  else if !n.isMidRange then n.signed n.scientific
  else if n.isWhole then n.signed n.wholeDigits
  else n.signed (n.shortest .up).plain

/-- What a number token shows. Small whole numbers end in a zero place and lose the sign of
zero; the others are positional, however long. -/
def tokenText (n : Number) : String :=
  if n.isNaN then "NaN"
  else if n.isInfinite then n.signed "inf".toList
  else if n.isZero then "0.0"
  else if n.isWhole && decide (n.wholePart < signWeight) then
    n.signed (n.wholeDigits ++ ['.', '0'])
  else n.signed (n.shortest .up).plain

/-- What a literal shows in a printed tree. Whole numbers are exact and end in a zero
place. -/
def treeText (n : Number) : String :=
  if n.isNaN then "NaN"
  else if n.isInfinite then n.signed "inf".toList
  else if n.isWhole then n.signed (n.wholeDigits ++ ['.', '0'])
  else n.signed (n.shortest .up).plain

def jsonBody (d : Decimal) : List Char :=
  let exponent := d.leadingExponent
  if -5 ≤ exponent ∧ exponent ≤ 15 then
    match d.exponent with
    | .ofNat _ => d.plain ++ ['.', '0']
    | .negSucc _ => d.plain
  else
    let digits := exponentDigits exponent
    d.mantissa ++ 'e' :: (if exponent < 0 then digits else '+' :: digits)

/-- JSON form: what is not finite is null, and exponents carry their sign. -/
def jsonText (n : Number) : String :=
  if !n.isFinite then "null"
  else if n.isZero then n.signed ['0', '.', '0']
  else n.signed (jsonBody (n.shortest .even))

end Number

end Lox
