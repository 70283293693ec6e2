import Quantities.Binary64.FixedPoint

/-!
# Elementary functions of doubles

Exponential, natural and decimal logarithm, and powers, each giving the double nearest to the exact
result.
-/

namespace Quantities

namespace Binary64

open Float.Model (UnpackedFloat)

/-- The fixed-point value of a scaled integer, rounded down. -/
def toFixed (sign : UnpackedFloat.Sign) (magnitude : Nat) (exponent : Int) : Int :=
  let shift := exponent + FixedPoint.fractionBits
  let scaled := sign.apply magnitude
  if 0 ≤ shift then scaled <<< shift.toNat else scaled >>> (-shift).toNat

def ofFixed (x : Int) : Float :=
  let sign := if x < 0 then UnpackedFloat.Sign.negative else UnpackedFloat.Sign.positive
  ofScaled sign x.natAbs (-FixedPoint.fractionBits)

/-- Exponential of a finite number; infinite when the result overflows, zero when it underflows. -/
def exp (x : Float) : Float :=
  match x.toModel.unpack with
  | .zero _ => 1.0
  | .finite sign significand exponent _ =>
      if 710.0 < x then
        infinity
      else if x < -746.0 then
        0.0
      else
        FixedPoint.nearestExp (toFixed sign significand exponent) .positive
  | _ => notANumber

def ln (x : Float) : Float :=
  match x.toModel.unpack with
  | .finite .positive significand exponent _ => ofFixed (FixedPoint.ln significand exponent)
  | _ => notANumber

def log10 (x : Float) : Float :=
  match x.toModel.unpack with
  | .finite .positive significand exponent _ =>
      ofFixed (FixedPoint.ln significand exponent * FixedPoint.one / FixedPoint.lnTen)
  | _ => notANumber

/--
The power `base ^ exponent` of two finite numbers.

- the power with a zero exponent is one;
- a zero base gives zero, or infinity for a negative exponent, signed like the base when the exponent
  is an odd integer;
- a negative base has powers with integer exponents only, negative for the odd ones.
-/
def power (base exponent : Float) : Float :=
  match base.toModel.unpack, exponent.toModel.unpack with
  | .zero _, .zero _ => 1.0
  | .finite _ _ _ _, .zero _ => 1.0
  | .zero _, .finite .positive _ _ _ => if isOddInteger exponent then base else 0.0
  | .zero _, .finite .negative _ _ _ =>
      if isOddInteger exponent then 1.0 / base else infinity
  | .finite baseSign significand scale _, .finite sign magnitude power _ =>
      if baseSign matches .negative && !isInteger exponent then
        notANumber
      else
        let resultSign := if isOddInteger exponent then baseSign else .positive
        let logarithm := FixedPoint.ln significand scale
        let product := sign.apply magnitude * logarithm
        let product := if 0 ≤ power then product <<< power.toNat else product >>> (-power).toNat
        if 710 * FixedPoint.one < product then
          if resultSign matches .negative then -infinity else infinity
        else if product < -746 * FixedPoint.one then
          ofScaled resultSign 0 0
        else
          FixedPoint.nearestExp product resultSign
  | _, _ => notANumber

example : exp 1.0 = 2.718281828459045 := by decide +kernel

example : ln 10.0 = 2.302585092994046 := by decide +kernel

example : log10 1e15 = 15.0 := by decide +kernel

example : power 2.0 0.5 = (2.0 : Float).sqrt := by decide +kernel

example : power (-2.0) 1023.0 = -8.98846567431158e307 := by decide +kernel

end Binary64

end Quantities
