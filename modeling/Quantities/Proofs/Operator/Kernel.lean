import Mathlib
import Quantities.Operator

/-!
# Kernels of operators

What an operator makes of two values, said apart from how its kernel is put together: numbers are
combined, a missing operand makes the result undefined or is replaced by a neutral number, and a result
that is not finite is undefined.
-/

namespace Quantities

/-- The doubles that compare equal to zero are the two zeros. -/
theorem Binary64.beq_zero_iff (x : Float) : (x == 0.0) = true ↔ x = 0.0 ∨ x = -0.0 := by
  have hzero : (0.0 : Float) = 0 := by decide
  have hsigns : (0 : Float) ≠ -0 := by decide
  rw [hzero, Float.beq_iff_ne_nan_and_eq]
  constructor
  · rintro ⟨-, -, hequal | ⟨-, hzeros⟩ | ⟨hnegative, -⟩⟩
    · exact .inl hequal
    · exact absurd hzeros hsigns
    · exact .inr hnegative
  · rintro (rfl | rfl) <;> decide

namespace Operator

/-- The number that a merge puts in place of one missing operand; the other operators have none. -/
def neutral? : Operator → Option Float
  | .mergeAdd => some 0.0
  | .mergeMultiply => some 1.0
  | .mergeMaximum => some (-Binary64.infinity)
  | .mergeMinimum => some Binary64.infinity
  | _ => none

def ofNumbers (operator : Operator) (epsilon x y : Float) : Value :=
  match operator with
  | .equal => .indicator ((x - y).abs ≤ tolerance epsilon)
  | .unequal => .indicator (¬ (x - y).abs ≤ tolerance epsilon)
  | .atMost => .indicator (x ≤ y + tolerance epsilon)
  | .atLeast => .indicator (y - tolerance epsilon ≤ x)
  | .less => .indicator (x < y)
  | .greater => .indicator (y < x)
  | .add | .mergeAdd => .ofFloat (x + y)
  | .subtract => .ofFloat (x - y)
  | .multiply | .mergeMultiply => .ofFloat (x * y)
  | .divide => if y = 0.0 ∨ y = -0.0 then .undefined else .ofFloat (x / y)
  | .power =>
      if x < 0.0 ∧ ¬ Binary64.isInteger y then .undefined else .ofFloat (Binary64.power x y)
  | .mergeMaximum => .ofFloat (Binary64.larger x y)
  | .mergeMinimum => .ofFloat (Binary64.smaller x y)

/-- The value that an operator gives to two values, either of which may be missing. -/
def rule (operator : Operator) (epsilon : Float) : Value → Value → Value
  | .defined x, .defined y => operator.ofNumbers epsilon x y
  | .defined x, .undefined =>
      match operator.neutral? with
      | some y => operator.ofNumbers epsilon x y
      | none => .undefined
  | .undefined, .defined y =>
      match operator.neutral? with
      | some x => operator.ofNumbers epsilon x y
      | none => .undefined
  | .undefined, .undefined => .undefined

theorem quotient_eq (x y : Float) :
    quotient x y = if y = 0.0 ∨ y = -0.0 then .undefined else .ofFloat (x / y) := by
  simp only [quotient, Binary64.beq_zero_iff]

theorem kernel_eq_rule (operator : Operator) (epsilon : Float) (l r : Value) :
    operator.kernel epsilon l r = operator.rule epsilon l r := by
  cases operator <;> cases l <;> cases r <;>
    simp [kernel, rule, ofNumbers, neutral?, Value.strict, Value.tolerant, Value.valueOr, within,
      quotient_eq, powerOf]

theorem isNormal_indicator (flag : Bool) : (Value.indicator flag).IsNormal := by
  cases flag <;> decide

theorem isNormal_ofNumbers (operator : Operator) (epsilon x y : Float) :
    (operator.ofNumbers epsilon x y).IsNormal := by
  cases operator with
  | equal | unequal | atMost | atLeast | less | greater => exact isNormal_indicator _
  | divide | power =>
      simp only [ofNumbers]
      split
      · trivial
      · exact Value.isNormal_ofFloat _
  | _ => exact Value.isNormal_ofFloat _

/-- Whatever is combined, the result is undefined or finite. -/
theorem isNormal_kernel (operator : Operator) (epsilon : Float) (l r : Value) :
    (operator.kernel epsilon l r).IsNormal := by
  rw [kernel_eq_rule]
  unfold rule
  split
  · exact isNormal_ofNumbers operator epsilon _ _
  · split
    · exact isNormal_ofNumbers operator epsilon _ _
    · trivial
  · split
    · exact isNormal_ofNumbers operator epsilon _ _
    · trivial
  · trivial

theorem normalized_kernel (operator : Operator) (epsilon : Float) (l r : Value) :
    (operator.kernel epsilon l r).normalized = operator.rule epsilon l r := by
  rw [Value.normalized_of_isNormal (isNormal_kernel operator epsilon l r), kernel_eq_rule]

@[simp] theorem kernel_undefined (operator : Operator) (epsilon : Float) :
    operator.kernel epsilon .undefined .undefined = .undefined := by
  rw [kernel_eq_rule]
  rfl

end Operator

end Quantities
