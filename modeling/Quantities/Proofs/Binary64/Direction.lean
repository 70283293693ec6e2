import Mathlib
import Quantities.Proofs.Binary64.Division
import Quantities.Proofs.Binary64.Multiplication

/-!
# Numbers in a direction

Numbers of one sign lie in one direction from zero.  A sum of such numbers lies in that direction as well,
at least as far out as each of its terms, whatever rounding does and even where it overflows.
-/

namespace Quantities

namespace Binary64

open Float.Model (UnpackedFloat)
open Float.Model.UnpackedFloat

variable {s : Sign} {x y z : Float} {q : ℚ}

/-- The number of a double, counted in the direction of a sign. -/
def along (s : Sign) (x : Float) : ℚ :=
  s.apply 1 * toRat x

@[simp] theorem along_positive (x : Float) : along .positive x = toRat x := by
  simp [along, Sign.apply]

@[simp] theorem along_negative (x : Float) : along .negative x = -toRat x := by
  simp [along, Sign.apply]

theorem abs_along (s : Sign) (x : Float) : |along s x| = |toRat x| := by
  cases s <;> simp

theorem along_le_beyond (s : Sign) (x : Float) : along s x ≤ beyond :=
  (le_abs_self _).trans ((abs_along s x).trans_le (abs_toRat_le x))

theorem along_eq_zero_iff : along s x = 0 ↔ toRat x = 0 := by
  rw [← abs_eq_zero, abs_along, abs_eq_zero]

theorem clamped_apply_mul (s : Sign) (q : ℚ) : clamped (s.apply 1 * q) = s.apply 1 * clamped q := by
  cases s with
  | positive => simp [Sign.apply]
  | negative => simp [Sign.apply, clamped_neg]

/-- The nearest double is the same in either direction. -/
theorem along_eq_of_toRat_eq (s : Sign) (h : toRat z = clamped (rounded q)) :
    along s z = clamped (rounded (s.apply 1 * q)) := by
  rw [along, h, rounded_apply_mul, clamped_apply_mul]

/-! ## Operations -/

section Operations

variable (s) (hx : x.isFinite = true) (hy : y.isFinite = true)
include hx

theorem clamped_rounded_along : clamped (rounded (along s x)) = along s x := by
  rw [along, rounded_apply_mul, clamped_apply_mul, clamped_rounded_toRat hx]

include hy

theorem along_add : along s (x + y) = clamped (rounded (along s x + along s y)) := by
  rw [along_eq_of_toRat_eq s (toRat_add hx hy), mul_add, along, along]

theorem along_mul : along s (x * y) = clamped (rounded (along s x * toRat y)) := by
  rw [along_eq_of_toRat_eq s (toRat_mul hx hy), along, mul_assoc]

theorem along_div (hne : toRat y ≠ 0) : along s (x / y) = clamped (rounded (toRat x / along s y)) := by
  have hdirection : s.apply 1 * (toRat x / toRat y) = toRat x / along s y := by
    cases s with
    | positive => simp [Sign.apply]
    | negative => simp [Sign.apply, div_neg]
  rw [along_eq_of_toRat_eq s (toRat_div hx hy hne), hdirection]

end Operations

/-! ## Outward numbers -/

/-- A number that does not lie against the direction; it may be infinite. -/
structure IsOutward (s : Sign) (x : Float) : Prop where
  isNaN_eq : x.isNaN = false
  nonneg : 0 ≤ along s x

theorem isOutward_negative_zero (s : Sign) : IsOutward s (-0.0) := by
  refine ⟨rfl, ?_⟩
  rw [along, toRat_neg, toRat_zero, neg_zero, mul_zero]

theorem isOutward_abs (h : x.isNaN = false) : IsOutward .positive x.abs := by
  refine ⟨(isNaN_abs x).trans h, ?_⟩
  rw [along_positive, toRat_abs]
  exact abs_nonneg _

namespace IsOutward

/-- The only infinite number in a direction is the infinity at its end. -/
theorem unpack_eq (h : IsOutward s x) (hinfinite : x.isFinite = false) :
    x.toModel.unpack = .infinity s := by
  have hbeyond := beyond_pos
  have hnonneg := h.nonneg
  obtain ⟨t, ht⟩ := exists_unpack_eq_infinity h.isNaN_eq hinfinite
  rw [along, toRat, ht] at hnonneg
  cases s <;> cases t
  · exact ht
  · simp [Sign.apply] at hnonneg
    linarith
  · simp [Sign.apply] at hnonneg
    linarith
  · exact ht

theorem unpack_add_of_infinite (hx : IsOutward s x) (hy : IsOutward s y)
    (hinfinite : y.isFinite = false) : (x + y).toModel.unpack = .infinity s := by
  have hyinf := hy.unpack_eq hinfinite
  cases hxfinite : x.isFinite with
  | true => exact unpack_add_of_infinity hxfinite hyinf
  | false =>
      have hsum : UnpackedFloat.add .binary64 x.toModel.unpack y.toModel.unpack = .infinity s := by
        rw [hx.unpack_eq hxfinite, hyinf]
        cases s <;> rfl
      show repacked (UnpackedFloat.add .binary64 x.toModel.unpack y.toModel.unpack) = .infinity s
      rw [hsum, repacked, UnpackedFloat.pack, unpack_packedInfinity]

theorem isNaN_add (hx : IsOutward s x) (hy : IsOutward s y) : (x + y).isNaN = false := by
  cases hxfinite : x.isFinite with
  | true => exact Binary64.isNaN_add hxfinite hy.isNaN_eq
  | false =>
      rw [swap_add]
      show (y + x).toModel.unpack.isNaN = false
      rw [hy.unpack_add_of_infinite hx hxfinite]
      rfl

theorem along_infinity (h : x.toModel.unpack = .infinity s) : along s x = beyond := by
  rw [along, toRat, h]
  cases s <;> simp [Sign.apply]

/-- A sum lies at least as far out as its first term. -/
theorem le_along_add (hx : IsOutward s x) (hy : IsOutward s y) : along s x ≤ along s (x + y) := by
  cases hxfinite : x.isFinite with
  | true =>
      cases hyfinite : y.isFinite with
      | true =>
          rw [along_add s hxfinite hyfinite, ← clamped_rounded_along s hxfinite]
          refine clamped_mono (rounded_mono ?_)
          rw [clamped_rounded_along s hxfinite]
          exact le_add_of_nonneg_right hy.nonneg
      | false =>
          rw [along_infinity (hx.unpack_add_of_infinite hy hyfinite)]
          exact along_le_beyond s x
  | false =>
      rw [swap_add, along_infinity (hy.unpack_add_of_infinite hx hxfinite)]
      exact along_le_beyond s x

theorem add (hx : IsOutward s x) (hy : IsOutward s y) : IsOutward s (x + y) :=
  ⟨hx.isNaN_add hy, hx.nonneg.trans (hx.le_along_add hy)⟩

end IsOutward

end Binary64

end Quantities
