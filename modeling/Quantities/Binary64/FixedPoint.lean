import Quantities.Binary64.Basic

/-!
# Fixed-point logarithms and exponentials

Numbers are integers counted in units of `2 ^ -320`.  The series below lose a few units to truncation,
which leaves far more correct digits than the nearest double needs: no logarithm or exponential of a
double comes closer than about `2 ^ -120`, relatively, to the middle of two doubles.
-/

namespace Quantities

namespace FixedPoint

def fractionBits : Nat :=
  320

def one : Int :=
  1 <<< fractionBits

/-- Product of two fixed-point numbers, rounded down. -/
def mul (x y : Int) : Int :=
  (x * y) >>> fractionBits

/--
Terms `power / odd + power * square / (odd + 2) + ...` of the series of the inverse hyperbolic tangent.
-/
def arctanhTerms (square : Int) : Nat → Int → Int → Int
  | 0, _, _ => 0
  | terms + 1, power, odd =>
      power / odd + arctanhTerms square terms (mul power square) (odd + 2)

/-- Inverse hyperbolic tangent of a number between `-1/3` and `1/3`. -/
def arctanh (x : Int) : Int :=
  arctanhTerms (mul x x) 104 x 1

def lnTwo : Int :=
  2 * arctanh (one / 3)

/--
Natural logarithm of `significand * 2 ^ exponent` for a positive significand.

The number is written as `f * 2 ^ k` with `f` between `√½` and `√2`, and
`ln f = 2 * arctanh ((f - 1) / (f + 1))`.
-/
def ln (significand : Nat) (exponent : Int) : Int :=
  let bits := significand.log2
  -- Above `√2 * 2 ^ bits` the next power of two is the nearer one.
  let bits := if 1 <<< (2 * bits + 1) < significand * significand then bits + 1 else bits
  let power : Int := 1 <<< bits
  let difference := significand - power
  let sum := significand + power
  (exponent + bits) * lnTwo + 2 * arctanh (difference * one / sum)

def lnTen : Int :=
  ln 10 0

/-- Terms `term + term * x / (count + 1) + ...` of the exponential series. -/
def expTerms (x : Int) : Nat → Int → Int → Int
  | 0, _, _ => 0
  | terms + 1, term, count =>
      term + expTerms x terms (mul term x / (count + 1)) (count + 1)

/-- Exponential of a number between `-½ ln 2` and `½ ln 2`. -/
def expSmall (x : Int) : Int :=
  expTerms x 72 one 0

/--
The double nearest to the exponential of a fixed-point number between `-800` and `800`.

The result is cut to about 200 bits first.  A power that is a double, or lies half way between two, is
a binary fraction of at most 54 bits, and the cut restores it exactly.
-/
def nearestExp (x : Int) (sign : Float.Model.UnpackedFloat.Sign) : Float :=
  let twos := (2 * x + lnTwo) / (2 * lnTwo)
  let magnitude := (expSmall (x - twos * lnTwo)).toNat
  Binary64.ofScaled sign ((magnitude + (1 <<< 119)) >>> 120) (twos - 200)

end FixedPoint

end Quantities
