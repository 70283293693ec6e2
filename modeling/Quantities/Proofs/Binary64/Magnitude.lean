import Mathlib
import Quantities.Proofs.Binary64.Division
import Quantities.Proofs.Binary64.Multiplication

/-!
# Bounds on magnitudes

A power of two that bounds the magnitude of an exact result bounds that of the double it is rounded to.
Bounds of operands therefore give bounds of results, and a result with a small enough bound is finite.
-/

namespace Quantities

namespace Binary64

open Float.Model (UnpackedFloat)
open Float.Model.UnpackedFloat

theorem abs_clamped_le_abs (q : ℚ) : |clamped q| ≤ |q| := by
  rw [← clamped_abs, clamped_of_nonneg (abs_nonneg q)]
  exact min_le_left _ _

theorem abs_rounded_le {q : ℚ} {k : ℤ} (hk : -1074 ≤ k) (h : |q| ≤ 2 ^ k) : |rounded q| ≤ 2 ^ k := by
  have hpower : rounded (2 ^ k) = 2 ^ k := by
    simpa using rounded_eq_self (m := 1) (e := k) (by norm_num) hk
  rw [← rounded_abs, ← hpower]
  exact rounded_mono h

structure IsWithin (k : ℤ) (x : Float) : Prop where
  isNaN_eq : x.isNaN = false
  abs_le : |toRat x| ≤ 2 ^ k

namespace IsWithin

variable {x y : Float} {j k : ℤ}

theorem isFinite (h : IsWithin k x) (hk : k < 1024) : x.isFinite = true := by
  rw [isFinite_iff h.isNaN_eq]
  exact h.abs_le.trans_lt (zpow_lt_zpow_right₀ one_lt_two hk)

theorem mono (h : IsWithin j x) (hjk : j ≤ k) : IsWithin k x :=
  ⟨h.isNaN_eq, h.abs_le.trans (zpow_le_zpow_right₀ one_le_two hjk)⟩

theorem neg (h : IsWithin k x) : IsWithin k (-x) := by
  refine ⟨(isNaN_neg x).trans h.isNaN_eq, ?_⟩
  rw [toRat_neg, abs_neg]
  exact h.abs_le

theorem of_rounded {q : ℚ} (hk : -1074 ≤ k) (hnan : x.isNaN = false)
    (hx : toRat x = clamped (rounded q)) (h : |q| ≤ 2 ^ k) : IsWithin k x := by
  refine ⟨hnan, ?_⟩
  rw [hx]
  exact (abs_clamped_le_abs _).trans (abs_rounded_le hk h)

theorem add (hx : IsWithin k x) (hy : IsWithin k y) (hmin : -1075 ≤ k) (hmax : k < 1024) :
    IsWithin (k + 1) (x + y) := by
  have hxfinite := hx.isFinite hmax
  refine of_rounded (by omega) (isNaN_add hxfinite hy.isNaN_eq)
    (toRat_add hxfinite (hy.isFinite hmax)) ?_
  calc |toRat x + toRat y|
      ≤ |toRat x| + |toRat y| := abs_add_le _ _
    _ ≤ 2 ^ k + 2 ^ k := add_le_add hx.abs_le hy.abs_le
    _ = 2 ^ (k + 1) := by rw [zpow_add_one₀ two_ne_zero, mul_two]

theorem sub (hx : IsWithin k x) (hy : IsWithin k y) (hmin : -1075 ≤ k) (hmax : k < 1024) :
    IsWithin (k + 1) (x - y) := by
  rw [sub_eq]
  exact hx.add hy.neg hmin hmax

theorem mul (hx : IsWithin j x) (hy : IsWithin k y) (hj : j < 1024) (hk : k < 1024)
    (hmin : -1074 ≤ j + k) : IsWithin (j + k) (x * y) := by
  have hxfinite := hx.isFinite hj
  have hyfinite := hy.isFinite hk
  refine of_rounded hmin (isNaN_mul hxfinite hyfinite) (toRat_mul hxfinite hyfinite) ?_
  rw [abs_mul, zpow_add₀ two_ne_zero]
  exact mul_le_mul hx.abs_le hy.abs_le (abs_nonneg _) (two_zpow_pos j).le

theorem div (hx : IsWithin j x) (hy : y.isFinite = true) (hle : 2 ^ k ≤ |toRat y|) (hj : j < 1024)
    (hmin : -1074 ≤ j - k) : IsWithin (j - k) (x / y) := by
  have hxfinite := hx.isFinite hj
  have hpos : 0 < |toRat y| := (two_zpow_pos k).trans_le hle
  have hne : toRat y ≠ 0 := abs_pos.mp hpos
  refine of_rounded hmin (isNaN_div hxfinite hy hne) (toRat_div hxfinite hy hne) ?_
  rw [abs_div, zpow_sub₀ two_ne_zero]
  exact div_le_div₀ (two_zpow_pos j).le hx.abs_le (two_zpow_pos k) hle

end IsWithin

/-! ## Scaled integers -/

theorem shiftToExponent_zero (e target : Int) :
    shiftToExponent 0 e .exact target = (⟨0, false, false⟩, e + (target - e).toNat) := by
  have hshift := shiftRight_exact 0 (target - e).toNat
  rw [Nat.zero_mul] at hshift
  rw [shiftToExponent, ExtendedMantissa.ofMantissaAndAccuracy, hshift]

theorem round_zero (s : Sign) (e : Int) : UnpackedFloat.round .binary64 s 0 e = .zero s := by
  have hround : (ExtendedMantissa.mk 0 false false).roundedMantissa = 0 := rfl
  simp only [UnpackedFloat.round, decreaseExponent, Nat.zero_shiftLeft, roundWithAccuracy,
    shiftToTargetExponent, shiftToExponent_zero, hround]
  rfl

section OfScaled

variable (s : Sign) (m : Nat) (e : Int)

theorem rounds_ofScaled :
    Rounds (UnpackedFloat.round .binary64 s m e) (s.apply m * 2 ^ e) := by
  rcases Nat.eq_zero_or_pos m with rfl | hm
  · rw [round_zero]
    refine rounds_zero s ?_
    rw [apply_eq_mul, Nat.cast_zero, mul_zero, zero_mul, rounded_zero]
  · exact rounds_round s hm e

theorem toRat_ofScaled : toRat (ofScaled s m e) = clamped (rounded (s.apply m * 2 ^ e)) :=
  (rounds_ofScaled s m e).ratOf_eq

theorem isNaN_ofScaled : (ofScaled s m e).isNaN = false :=
  (rounds_ofScaled s m e).isNaN_eq

theorem isWithin_ofScaled {k : ℤ} (hk : -1074 ≤ k) (h : (m : ℚ) * 2 ^ e ≤ 2 ^ k) :
    IsWithin k (ofScaled s m e) := by
  refine .of_rounded hk (isNaN_ofScaled s m e) (toRat_ofScaled s m e) ?_
  rw [abs_mul, abs_apply_natCast, abs_of_pos (two_zpow_pos e)]
  exact h

end OfScaled

end Binary64

end Quantities
