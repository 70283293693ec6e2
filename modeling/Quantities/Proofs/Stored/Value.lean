import Quantities.Proofs.Binary64.Sign
import Quantities.Proofs.Decimal.Shortest
import Quantities.Proofs.Stored.Record
import Quantities.Stored.Value

/-!
# Stored values are read back

A finite double is stored as its sign and its shortest decimal, which are read as the same double.  NaN
and the infinities are stored as null, so a stored value comes back checked.
-/

namespace Quantities

namespace JsonTree

variable {x : Float}

theorem isNormal_ofFloat (x : Float) : (ofFloat x).IsNormal := by
  unfold ofFloat
  split
  · exact Decimal.isNormal_shortest _ x
  · trivial

theorem float?_ofFloat (h : x.isFinite = true) : (ofFloat x).float? = some x := by
  have hread := Decimal.toFloat_shortest JsonWriter.style.tie h
  rw [ofFloat, if_pos h, float?]
  simp only [hread, Binary64.isFinite_abs h, if_true, Binary64.signed_isNegative_abs h]

/-- What is not finite is stored as null, which is no number. -/
theorem float?_ofFloat_of_not_isFinite (h : x.isFinite = false) : (ofFloat x).float? = none := by
  rw [ofFloat, if_neg (by simp [h])]
  rfl

end JsonTree

namespace Value

theorem isNormal_toTree (value : Value) : value.toTree.IsNormal := by
  cases value with
  | defined x => exact JsonTree.isNormal_ofFloat x
  | undefined => trivial

theorem ofTree?_toTree (value : Value) : ofTree? value.toTree = some value.normalized := by
  cases value with
  | undefined => rfl
  | defined x =>
      by_cases hx : x.isFinite = true
      · have hread := JsonTree.float?_ofFloat hx
        have hnumber : (Value.defined x).toTree ≠ .null := by
          intro hnull
          rw [toTree] at hnull
          rw [hnull] at hread
          cases hread
        unfold ofTree?
        split
        · next heq => exact absurd heq hnumber
        · rw [toTree, hread]
          rfl
      · have hnull : (Value.defined x).toTree = .null := by
          rw [toTree, JsonTree.ofFloat, if_neg hx]
        have hnormal : (Value.defined x).normalized = .undefined := by
          simp [normalized, andThen, ofFloat, hx]
        rw [hnull, hnormal]
        rfl

/-- A stored value comes back checked, whatever it wraps. -/
theorem ofText_toText (value : Value) : ofText value.toText = .ok value.normalized := by
  rw [ofText, toText, Stored.readWith_text (isNormal_toTree value), ofTree?_toTree]
  rfl

end Value

end Quantities
