import Quantities.Binary64.Elementary
import Quantities.KeyedSet.Basic

/-!
# Reductions

Functions from a set to one value.  A reduction sees the defined values only, in key order.  Without any
it is undefined, never zero, and so it is outside its domain and when the result overflows.
-/

namespace Quantities

/-- Sum of numbers from first to last; the sum of none is `-0.0`, the neutral number of addition. -/
def sumOf (xs : List Float) : Float :=
  xs.foldl (· + ·) (-0.0)

def productOf (xs : List Float) : Float :=
  xs.foldl (· * ·) 1.0

/-- The smallest of some numbers, infinity for none. -/
def minimumOf (xs : List Float) : Float :=
  xs.foldl Binary64.smaller Binary64.infinity

def maximumOf (xs : List Float) : Float :=
  xs.foldl Binary64.larger (-Binary64.infinity)

def arithmeticMeanOf (xs : List Float) : Float :=
  sumOf xs / .ofNat xs.length

/--
Geometric mean of positive numbers.  It goes through the mean of their logarithms, so that no
intermediate product overflows.
-/
def geometricMeanOf (xs : List Float) : Float :=
  Binary64.exp (arithmeticMeanOf (xs.map Binary64.ln))

/--
Harmonic mean of nonzero numbers.  Reciprocals are taken relative to the smallest magnitude, so that
those of subnormal numbers do not overflow.
-/
def harmonicMeanOf (xs : List Float) : Float :=
  let scale := minimumOf (xs.map Float.abs)
  .ofNat xs.length / sumOf (xs.map fun x => scale / x) * scale

def oneNormOf (xs : List Float) : Float :=
  sumOf (xs.map Float.abs)

def twoNormOf (xs : List Float) : Float :=
  (sumOf (xs.map fun x => x * x)).sqrt

def maxNormOf (xs : List Float) : Float :=
  (xs.map Float.abs).foldl Binary64.larger 0.0

inductive Reduction where
  | sum
  | arithmeticMean
  | geometricMean
  | harmonicMean
  | minimum
  | maximum
  | oneNorm
  | twoNorm
  | maxNorm
  | product
deriving DecidableEq, Repr

namespace Reduction

def all : List Reduction :=
  [.sum, .arithmeticMean, .geometricMean, .harmonicMean, .minimum, .maximum, .oneNorm, .twoNorm,
    .maxNorm, .product]

def name : Reduction → String
  | .sum => "SUM"
  | .arithmeticMean => "AVEA"
  | .geometricMean => "AVEG"
  | .harmonicMean => "AVEH"
  | .minimum => "MIN"
  | .maximum => "MAX"
  | .oneNorm => "NORM1"
  | .twoNorm => "NORM2"
  | .maxNorm => "NORMI"
  | .product => "PROD"

/-- Numbers that a reduction is defined for: positive ones for the geometric, nonzero ones for the
harmonic mean. -/
def accepts (reduction : Reduction) (x : Float) : Bool :=
  match reduction with
  | .geometricMean => !(x ≤ 0.0)
  | .harmonicMean => !(x == 0.0)
  | _ => true

def ofNumbers : Reduction → List Float → Float
  | .sum => sumOf
  | .arithmeticMean => arithmeticMeanOf
  | .geometricMean => geometricMeanOf
  | .harmonicMean => harmonicMeanOf
  | .minimum => minimumOf
  | .maximum => maximumOf
  | .oneNorm => oneNormOf
  | .twoNorm => twoNormOf
  | .maxNorm => maxNormOf
  | .product => productOf

def eval (reduction : Reduction) (s : KeyedSet) : Value :=
  let numbers := s.definedValues
  if numbers.isEmpty || !numbers.all reduction.accepts then
    .undefined
  else
    .ofFloat (reduction.ofNumbers numbers)

end Reduction

end Quantities
