import Quantities.Binary64.Basic
import Quantities.Decimal.Basic

/-!
# Shortest decimals

The decimal with the fewest digits that is read back as a given double, and among those the nearest.
On each power-of-ten grid, from coarse to fine, the two neighbours of the double are tried, the nearer
one first.
-/

namespace Quantities

/-- Which of two equally near neighbours is tried first. -/
inductive Tie where
  /-- The neighbour whose last digit is even. -/
  | even
  /-- The neighbour of larger magnitude. -/
  | up
deriving DecidableEq, Repr

def Tie.takesUpper (tie : Tie) (floor : Nat) : Bool :=
  match tie with
  | .even => floor % 2 = 1
  | .up => true

namespace Decimal

def exact (significand : Nat) (exponent : Int) : Decimal :=
  if 0 ≤ exponent then
    ⟨significand <<< exponent.toNat, 0⟩
  else
    ⟨significand * Nat.pow 5 (-exponent).toNat, exponent⟩

/--
The multiples of `10 ^ place` below and above `significand * 2 ^ exponent`, the nearer one first.
-/
def neighbours (tie : Tie) (significand : Nat) (exponent place : Int) : List Decimal :=
  let numerator := (significand <<< exponent.toNat) * Nat.pow 10 (-place).toNat
  let denominator := (1 <<< (-exponent).toNat) * Nat.pow 10 place.toNat
  let floor := numerator / denominator
  let below : Decimal := ⟨floor, place⟩
  let above : Decimal := ⟨floor + 1, place⟩
  match compare (2 * (numerator % denominator)) denominator with
  | .lt => [below, above]
  | .eq => if tie.takesUpper floor then [above, below] else [below, above]
  | .gt => [above, below]

/--
A power of ten, or one too many, at which the leading digit of `significand * 2 ^ exponent` stands.
The factor `1233 / 4096` is close to the decimal logarithm of two.
-/
def leadingPlace (significand : Nat) (exponent : Int) : Int :=
  (significand.log2 + exponent) * 1233 / 4096 + 1

/--
The shortest decimal that is read back as the magnitude of a finite double.  Seventeen digits always
suffice; the exact expansion behind them makes the choice total.
-/
def shortest (tie : Tie) (x : Float) : Decimal :=
  match x.toModel.unpack with
  | .finite _ significand exponent _ =>
      let first := leadingPlace significand exponent
      let places := (List.range 20).map fun (step : Nat) => first - step
      let candidates := places.flatMap (neighbours tie significand exponent)
      let found := candidates.find? fun d => d.toFloat = x.abs
      (found.getD (exact significand exponent)).normalized
  | _ => ⟨0, 0⟩

example : shortest .even 5e-324 = ⟨5, -324⟩ := by decide +kernel

example : shortest .even (0.1 + 0.2) = ⟨30000000000000004, -17⟩ := by decide +kernel

-- The exact expansion `4.8923492431640625e-4` lies half way between two decimals that are read back.
example : shortest .even (513.0 / 1048576.0) = ⟨4892349243164062, -19⟩ := by decide +kernel

example : shortest .up (513.0 / 1048576.0) = ⟨4892349243164063, -19⟩ := by decide +kernel

end Decimal

end Quantities
