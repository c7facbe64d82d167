/-!
Numbers are 64-bit binary floating point values, kept as their bit patterns so that two of
them can be compared by decision. A finite number is a whole count of units, the unit being
the least positive number: every finite number of this format is an exact multiple of it.
-/

set_option autoImplicit false

namespace Lox

structure Number where
  bits : UInt64
deriving DecidableEq

namespace Number

/-- Weight of the sign bit. -/
def signWeight : Nat := 0x8000000000000000

/-- Pattern of positive infinity. Above it, up to the sign bit, lie the patterns of NaN. -/
def infinityBits : Nat := 0x7FF0000000000000

/-- Step of the exponent field within a pattern. -/
def fieldWeight : Nat := 0x10000000000000

/-- How many units make one. -/
def unitsPerOne : Nat := Nat.pow 2 1074

def isNegative (n : Number) : Bool := decide (signWeight ≤ n.bits.toNat)

/-- The pattern without its sign bit. -/
def magnitude (n : Number) : Nat := n.bits.toNat % signWeight

def isNaN (n : Number) : Bool := decide (infinityBits < n.magnitude)

def isInfinite (n : Number) : Bool := decide (n.magnitude = infinityBits)

def isFinite (n : Number) : Bool := decide (n.magnitude < infinityBits)

def isZero (n : Number) : Bool := decide (n.magnitude = 0)

/-- Two to this power is the spacing, in units, of the numbers around `n`. -/
def scale (n : Number) : Nat := n.magnitude / fieldWeight - 1

/-- Absolute value of a finite number, counted in units. -/
def units (n : Number) : Nat := (n.magnitude - n.scale * fieldWeight) * Nat.pow 2 n.scale

/-- Whether a finite number is whole. -/
def isWhole (n : Number) : Bool := decide (n.units % unitsPerOne = 0)

/-- Whole part of the absolute value. -/
def wholePart (n : Number) : Nat := n.units / unitsPerOne

def abs (n : Number) : Number := ⟨UInt64.ofNat n.magnitude⟩

def ofFloat (x : Float) : Number := ⟨x.toBits⟩

def toFloat (n : Number) : Float := Float.ofBits n.bits

/-- The number nearest to an integer. -/
def ofInt (i : Int64) : Number := ofFloat i.toFloat

def neg (a : Number) : Number := ofFloat (-a.toFloat)
def add (a b : Number) : Number := ofFloat (a.toFloat + b.toFloat)
def sub (a b : Number) : Number := ofFloat (a.toFloat - b.toFloat)
def mul (a b : Number) : Number := ofFloat (a.toFloat * b.toFloat)
def div (a b : Number) : Number := ofFloat (a.toFloat / b.toFloat)

def less (a b : Number) : Bool := decide (a.toFloat < b.toFloat)
def lessOrEqual (a b : Number) : Bool := decide (a.toFloat ≤ b.toFloat)

/-- Equality of the language: a NaN equals every NaN, and the two zeros differ. -/
def same (a b : Number) : Bool := (a.isNaN && b.isNaN) || decide (a = b)

end Number

end Lox
