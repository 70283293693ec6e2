import Quantities.Binary64.Elementary
import Quantities.KeyedSet.Union

/-!
# Functions of two sets

The entries of two sets are paired key by key, with scalar-typed sets broadcast, and each pair is
combined by a kernel of two values.  Kernels are strict, so that undefined on either side gives
undefined, or they put a neutral number in place of one missing side.
-/

namespace Quantities

namespace KeyedSet

def unionValues (f : Value → Value → Value) (lhs rhs : KeyedSet) : List Value :=
  (lhs.keyUnion rhs).keys.map fun key => f (lhs.get key) (rhs.get key)

/--
Combines two sets key by key.

- A scalar-typed set broadcasts its value over the keys of the other one.
- Two keyed sets are combined over the keys of the first followed by those that only the second holds,
  and a side that lacks a key is undefined there.

The result has the name of the first set and the kind of the keyed one.
-/
def combine (f : Value → Value → Value) (lhs rhs : KeyedSet) : KeyedSet :=
  match lhs.kind.isScalar, rhs.kind.isScalar with
  | true, false => (rhs.mapValues fun r => f lhs.scalarValue r).renamed lhs.name
  | _, true => lhs.mapValues fun l => f l rhs.scalarValue
  | false, false => (lhs.keyUnion rhs).assignFrom 0 (unionValues f lhs rhs)

theorem combine_of_keyed (f : Value → Value → Value) {lhs rhs : KeyedSet}
    (hlhs : lhs.kind.isScalar = false) (hrhs : rhs.kind.isScalar = false) :
    combine f lhs rhs = (lhs.keyUnion rhs).assignFrom 0 (unionValues f lhs rhs) := by
  rw [combine, hlhs, hrhs]

theorem combine_of_scalar_left (f : Value → Value → Value) {lhs rhs : KeyedSet}
    (hlhs : lhs.kind.isScalar = true) (hrhs : rhs.kind.isScalar = false) :
    combine f lhs rhs = (rhs.mapValues fun r => f lhs.scalarValue r).renamed lhs.name := by
  rw [combine, hlhs, hrhs]

theorem combine_of_scalar_right (f : Value → Value → Value) {lhs rhs : KeyedSet}
    (hrhs : rhs.kind.isScalar = true) :
    combine f lhs rhs = lhs.mapValues fun l => f l rhs.scalarValue := by
  rw [combine, hrhs]
  cases lhs.kind.isScalar <;> rfl

end KeyedSet

namespace Value

def strict (f : Float → Float → Value) : Value → Value → Value
  | .defined x, .defined y => f x y
  | _, _ => .undefined

/-- Combines two values with a neutral number for one missing side; without both it is undefined. -/
def tolerant (neutral : Float) (f : Float → Float → Float) : Value → Value → Value
  | .undefined, .undefined => .undefined
  | l, r => .ofFloat (f (l.valueOr neutral) (r.valueOr neutral))

end Value

inductive Operator where
  | equal
  | unequal
  | atMost
  | atLeast
  | power
  | less
  | greater
  | add
  | multiply
  | subtract
  | divide
  | mergeAdd
  | mergeMultiply
  | mergeMaximum
  | mergeMinimum
deriving DecidableEq, Repr

namespace Operator

def all : List Operator :=
  [.equal, .unequal, .atMost, .atLeast, .power, .less, .greater, .add, .multiply, .subtract, .divide,
    .mergeAdd, .mergeMultiply, .mergeMaximum, .mergeMinimum]

def name : Operator → String
  | .equal => "EQ"
  | .unequal => "NE"
  | .atMost => "LE"
  | .atLeast => "GE"
  | .power => "POW"
  | .less => "LT"
  | .greater => "GT"
  | .add => "ADD"
  | .multiply => "MUL"
  | .subtract => "SUB"
  | .divide => "DIV"
  | .mergeAdd => "UADD"
  | .mergeMultiply => "UMUL"
  | .mergeMaximum => "UMAX"
  | .mergeMinimum => "UMIN"

/-- The tolerance that a caller's epsilon stands for: negative ones and NaN count as zero. -/
def tolerance (epsilon : Float) : Float :=
  Binary64.larger epsilon 0.0

def within (epsilon x y : Float) : Bool :=
  (x - y).abs ≤ tolerance epsilon

/-- The quotient of two numbers; division by a zero of either sign is undefined. -/
def quotient (x y : Float) : Value :=
  if y == 0.0 then .undefined else .ofFloat (x / y)

/-- The power of two numbers; a negative base with a fractional exponent is undefined. -/
def powerOf (base exponent : Float) : Value :=
  if base < 0.0 && !Binary64.isInteger exponent then
    .undefined
  else
    .ofFloat (Binary64.power base exponent)

def kernel (operator : Operator) (epsilon : Float) : Value → Value → Value :=
  match operator with
  | .equal => .strict fun x y => .indicator (within epsilon x y)
  | .unequal => .strict fun x y => .indicator (!within epsilon x y)
  | .atMost => .strict fun x y => .indicator (x ≤ y + tolerance epsilon)
  | .atLeast => .strict fun x y => .indicator (y - tolerance epsilon ≤ x)
  | .power => .strict powerOf
  | .less => .strict fun x y => .indicator (x < y)
  | .greater => .strict fun x y => .indicator (y < x)
  | .add => .strict fun x y => .ofFloat (x + y)
  | .multiply => .strict fun x y => .ofFloat (x * y)
  | .subtract => .strict fun x y => .ofFloat (x - y)
  | .divide => .strict quotient
  | .mergeAdd => .tolerant 0.0 (· + ·)
  | .mergeMultiply => .tolerant 1.0 (· * ·)
  | .mergeMaximum => .tolerant (-Binary64.infinity) Binary64.larger
  | .mergeMinimum => .tolerant Binary64.infinity Binary64.smaller

/-- Combines two sets; only the comparisons by tolerance look at the epsilon. -/
def eval (operator : Operator) (epsilon : Float) (lhs rhs : KeyedSet) : KeyedSet :=
  KeyedSet.combine (operator.kernel epsilon) lhs rhs

end Operator

end Quantities
