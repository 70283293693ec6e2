import Mathlib
import Quantities.Proofs.Binary64.Addition

/-!
# Products of doubles

The product of two finite doubles is the double nearest to the product of their numbers, with the
infinities standing for what is too large.
-/

namespace Quantities

namespace Binary64

open Float.Model (UnpackedFloat Format totalExponent)
open Float.Model.UnpackedFloat

/-! ## Unpacked products -/

theorem swap_sign_mul (s t : Sign) : s * t = t * s := by
  cases s <;> cases t <;> rfl

theorem unpacked_mul_comm (u v : UnpackedFloat) :
    UnpackedFloat.mul .binary64 u v = UnpackedFloat.mul .binary64 v u := by
  cases u <;> cases v <;>
    simp only [UnpackedFloat.mul, swap_sign_mul, Nat.mul_comm, Int.add_comm]

/-- The product of two significands is not on a finer grid than it is rounded to. -/
theorem mul_exponent_le {m n : Nat} {e f : Int} (hm : IsParts m e) (hn : IsParts n f) :
    e + f ≤ gridExponent (((m * n : Nat) : ℚ) * 2 ^ (e + f)) := by
  have hpos : 0 < m * n := Nat.mul_pos hm.pos hn.pos
  have hmmin := hm.isOnGrid.min_le
  have hnmin := hn.isOnGrid.min_le
  rw [← targetExponent_eq_gridExponent hpos, targetExponent_eq, totalExponent]
  by_cases hnormal : 2 ^ 52 ≤ m * n
  · have hlog : 52 ≤ (m * n).log2 := (Nat.le_log2 hpos.ne').mpr hnormal
    omega
  · -- Otherwise both factors are subnormal, and the product is far below the smallest double.
    have he : e = -1074 := by
      by_contra hne
      exact hnormal ((hm.isOnGrid.normal (by omega)).trans (Nat.le_mul_of_pos_right m hn.pos))
    have hf : f = -1074 := by
      by_contra hne
      exact hnormal ((hn.isOnGrid.normal (by omega)).trans (Nat.le_mul_of_pos_left n hm.pos))
    omega

theorem ratOf_mul_ratOf (s t : Sign) {m n : Nat} (hm : 0 < m) (hn : 0 < n) (e f : Int) :
    ratOf (.finite s m e hm) * ratOf (.finite t n f hn) =
      (s * t).apply 1 * (((m * n : Nat) : ℚ) * 2 ^ (e + f)) := by
  have hsign : (s * t).apply 1 = s.apply 1 * t.apply 1 := by
    cases s <;> cases t <;> rfl
  rw [ratOf, ratOf, apply_eq_mul, apply_eq_mul t, hsign, Int.cast_mul, zpow_add₀ two_ne_zero,
    Nat.cast_mul]
  ring

theorem rounds_mul {u v : UnpackedFloat} (hu : IsCanonical u) (hv : IsCanonical v)
    (hufin : u.isFinite = true) (hvfin : v.isFinite = true) :
    Rounds (UnpackedFloat.mul .binary64 u v) (ratOf u * ratOf v) := by
  cases u with
  | notANumber => cases hufin
  | infinity s => cases hufin
  | zero s =>
      have hzero : rounded (ratOf (.zero s) * ratOf v) = 0 := by
        rw [ratOf_zero, zero_mul, rounded_zero]
      cases v with
      | notANumber => cases hvfin
      | infinity t => cases hvfin
      | zero t => exact rounds_zero _ hzero
      | finite t n f hn => exact rounds_zero _ hzero
  | finite s m e hm =>
      cases v with
      | notANumber => cases hvfin
      | infinity t => cases hvfin
      | zero t => exact rounds_zero _ (by rw [ratOf_zero, mul_zero, rounded_zero])
      | finite t n f hn =>
          rw [ratOf_mul_ratOf]
          exact rounds_of_cases (s * t)
            (roundWithAccuracy_cases (s * t) (Nat.mul_pos hm hn) (mul_exponent_le hu hv))

/-! ## Products -/

variable {x y : Float}

theorem swap_mul (x y : Float) : x * y = y * x := by
  show Float.ofModel (.pack (UnpackedFloat.mul .binary64 x.toModel.unpack y.toModel.unpack)) =
    Float.ofModel (.pack (UnpackedFloat.mul .binary64 y.toModel.unpack x.toModel.unpack))
  rw [unpacked_mul_comm]

theorem toRat_mul (hx : x.isFinite = true) (hy : y.isFinite = true) :
    toRat (x * y) = clamped (rounded (toRat x * toRat y)) :=
  (rounds_mul (isCanonical_unpack x) (isCanonical_unpack y) hx hy).ratOf_eq

theorem isNaN_mul (hx : x.isFinite = true) (hy : y.isFinite = true) : (x * y).isNaN = false :=
  (rounds_mul (isCanonical_unpack x) (isCanonical_unpack y) hx hy).isNaN_eq

/-- A finite double is its product with one, bit for bit. -/
theorem mul_one_eq (hx : x.isFinite = true) : x * 1.0 = x := by
  have hfinite : x.toModel.unpack.isFinite = true := hx
  have hone : (1.0 : Float).toModel.unpack = .finite .positive (1 * 2 ^ 52) (-52) (by decide) := rfl
  have hsign : ∀ s : Sign, s * .positive = s := by
    intro s
    cases s <;> rfl
  have hsame : UnpackedFloat.mul .binary64 x.toModel.unpack (1.0 : Float).toModel.unpack =
      x.toModel.unpack := by
    rw [hone]
    cases hu : x.toModel.unpack with
    | notANumber => rw [hu] at hfinite; cases hfinite
    | infinity s => rw [hu] at hfinite; cases hfinite
    | zero s => exact congrArg UnpackedFloat.zero (hsign s)
    | finite s m e hm =>
        show roundWithAccuracy .binary64 (s * .positive) (m * (1 * 2 ^ 52)) (e + -52) .exact = _
        rw [hsign, Nat.one_mul]
        exact (isParts_of_unpack hu).roundWithAccuracy_eq s 52
  have hproduct : (x * 1.0).toBits.toBitVec =
      (UnpackedFloat.mul .binary64 x.toModel.unpack (1.0 : Float).toModel.unpack).pack .binary64 := rfl
  rw [← Float.toBits_inj, ← UInt64.toBitVec_inj, hproduct, hsame, pack_unpack]

end Binary64

end Quantities
