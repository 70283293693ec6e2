/-!
# Decimal numbers

A nonnegative decimal number is a whole number of units of a power of ten.  It is read as the double
nearest to it, and two decimals that differ in trailing zeros only are read alike.
-/

namespace Quantities

/-- The number `digits * 10 ^ exponent`. -/
structure Decimal where
  digits : Nat
  exponent : Int
deriving DecidableEq, Repr

namespace Decimal

def dropZeros : Nat → Decimal → Decimal
  | 0, d => d
  | fuel + 1, d =>
      if d.digits % 10 = 0 then
        dropZeros fuel ⟨d.digits / 10, d.exponent + 1⟩
      else
        d

/-- The same number without trailing zeros; zero has the exponent zero. -/
def normalized (d : Decimal) : Decimal :=
  if d.digits = 0 then ⟨0, 0⟩ else d.dropZeros d.digits.log2

/-- The double nearest to the number; ties go to the even significand. -/
def toFloat (d : Decimal) : Float :=
  let d := d.normalized
  .ofModel (.ofScientific d.digits d.exponent)

def width (d : Decimal) : Nat :=
  (Nat.toDigits 10 d.digits).length

/-- Exponent of the leading digit: the number is `d.ddd * 10 ^ order`. -/
def order (d : Decimal) : Int :=
  d.exponent + d.width - 1

end Decimal

end Quantities
