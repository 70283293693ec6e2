/-!
# Binary64 numbers

The parts of a double, the double nearest to a scaled integer, and the comparisons and roundings that
the set functions need beyond core arithmetic.  Everything here is built from the bit pattern and the
rounding rule of core's own model of doubles, so that it is evaluated and reasoned about like `+`.
-/

namespace Quantities

namespace Binary64

open Float.Model (UnpackedFloat)

/-- The double nearest to `magnitude * 2 ^ exponent` with the given sign; ties go to the even significand. -/
def ofScaled (sign : UnpackedFloat.Sign) (magnitude : Nat) (exponent : Int) : Float :=
  .ofModel (.pack (.round .binary64 sign magnitude exponent))

def infinity : Float :=
  .ofBits 0x7ff0000000000000

def largest : Float :=
  .ofBits 0x7fefffffffffffff

def notANumber : Float :=
  .ofBits 0x7ff8000000000000

/-- The bit of the sign, which is the only one that `-0.0` has. -/
def signBit : Nat :=
  0x8000000000000000

def isNegative (x : Float) : Bool :=
  signBit ≤ x.toBits.toNat

/--
The larger of two numbers.  When one of them is NaN the other is the answer, and the first of two
equal numbers is kept.
-/
def larger (x y : Float) : Float :=
  if x < y || x.isNaN then y else x

/-- The smaller of two numbers, with the conventions of `larger`. -/
def smaller (x y : Float) : Float :=
  if y < x || x.isNaN then y else x

/--
Position of a number in the total order of doubles.  Nonnegative doubles are ordered like their bit
patterns and negative ones the other way round below them, so `-0.0` comes just before `0.0`.
-/
def orderKey (x : Float) : Int :=
  let bits : Int := x.toBits.toNat
  if isNegative x then signBit - 1 - bits else bits

def precedes (x y : Float) : Bool :=
  orderKey x ≤ orderKey y

/-- Rounds to the nearest integer; a half goes away from zero and the sign of a zero result is kept. -/
def nearestInteger (x : Float) : Float :=
  match x.toModel.unpack with
  | .finite sign significand exponent _ =>
      if 0 ≤ exponent then
        x
      else
        let unit := 1 <<< (-exponent).toNat
        ofScaled sign ((2 * significand + unit) / (2 * unit)) 0
  | _ => x

def isInteger (x : Float) : Bool :=
  match x.toModel.unpack with
  | .zero _ => true
  | .finite _ significand exponent _ => significand % (1 <<< (-exponent).toNat) = 0
  | _ => false

def isOddInteger (x : Float) : Bool :=
  match x.toModel.unpack with
  | .finite _ significand exponent _ =>
      let unit := 1 <<< (-exponent).toNat
      exponent ≤ 0 && significand % (2 * unit) = unit
  | _ => false

end Binary64

end Quantities
