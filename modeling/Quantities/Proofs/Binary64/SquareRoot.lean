import Mathlib
import Quantities.Proofs.Binary64.Direction
import Quantities.Proofs.Binary64.Elementary
import Quantities.Proofs.Binary64.ZeroSign

/-!
# Square roots of doubles

The square root of a positive double is computed as the integer root of its significand, on a grid that is
fine enough.  The root has digits in front of that grid, so that rounding does not make it vanish: only the
root of zero is zero.
-/

namespace Quantities

namespace Binary64

open Float.Model (UnpackedFloat Format totalExponent)
open Float.Model.UnpackedFloat

/-! ## Roots of significands -/

section Core

variable {m n : Nat} {e : Int}

def rootExponent (m : Nat) (e : Int) : Int :=
  min (e / 2) (Format.binary64.targetExponent ((totalExponent m e + 1) / 2))

def radicand (m : Nat) (e : Int) : Nat :=
  m <<< (e - 2 * rootExponent m e).toNat

theorem log2_le_log2_sqrt (hn : 0 < n) : n.log2 / 2 ≤ n.sqrt.log2 := by
  have hroot : n.sqrt ≠ 0 := (Nat.sqrt_pos.mpr hn).ne'
  rw [Nat.le_log2 hroot, Nat.le_sqrt, ← pow_add]
  calc 2 ^ (n.log2 / 2 + n.log2 / 2)
      ≤ 2 ^ n.log2 := Nat.pow_le_pow_right two_pos (by omega)
    _ ≤ n := Nat.log2_self_le hn.ne'

theorem radicand_pos (hm : 0 < m) (e : Int) : 0 < radicand m e := by
  rw [radicand, Nat.shiftLeft_eq]
  positivity

theorem radicand_mul (m : Nat) (e : Int) :
    (radicand m e : ℚ) * 2 ^ (2 * rootExponent m e) = m * 2 ^ e := by
  have hle : rootExponent m e ≤ e / 2 := min_le_left _ _
  have hshift : (((e - 2 * rootExponent m e).toNat : Nat) : Int) = e - 2 * rootExponent m e := by omega
  rw [radicand, Nat.shiftLeft_eq, Nat.cast_mul, Nat.cast_pow, Nat.cast_ofNat, ← zpow_natCast, hshift,
    mul_assoc, ← zpow_add₀ two_ne_zero, sub_add_cancel]

theorem log2_radicand (hm : 0 < m) (e : Int) :
    ((radicand m e).log2 : Int) + 2 * rootExponent m e = m.log2 + e := by
  rw [← log_two_natCast_mul (radicand_pos hm e), radicand_mul, log_two_natCast_mul hm]

theorem min_le_rootExponent (m : Nat) (h : -1074 ≤ e) : -1074 ≤ rootExponent m e := by
  rw [rootExponent, targetExponent_eq]
  omega

/-- The integer root has enough digits for the grid that the root is rounded to. -/
theorem rootExponent_le (hm : 0 < m) (e : Int) : rootExponent m e ≤
    max ((radicand m e).sqrt.log2 + rootExponent m e - 52) (-1074) := by
  have hdigits := log2_radicand hm e
  have hroot := log2_le_log2_sqrt (radicand_pos hm e)
  have hle : rootExponent m e ≤ max ((totalExponent m e + 1) / 2 - 53) (-1074) := min_le_right _ _
  rw [totalExponent] at hle
  omega

/-- Every accuracy stands for some numbers that have the mantissa as their whole part. -/
theorem exists_represents (n : Nat) (accuracy : Accuracy) : ∃ q : ℚ,
    Represents (.ofMantissaAndAccuracy n accuracy) q ∧ n ≤ q ∧ q < n + 1 := by
  cases accuracy with
  | exact => exact ⟨n, rfl, le_rfl, by linarith⟩
  | inexact ordering =>
      cases ordering with
      | lt => exact ⟨n + 1 / 4, ⟨by linarith, by linarith⟩, by linarith, by linarith⟩
      | eq => exact ⟨n + 1 / 2, rfl, by linarith, by linarith⟩
      | gt => exact ⟨n + 3 / 4, ⟨by linarith, by linarith⟩, by linarith, by linarith⟩

/-- A number with a given whole part on some grid has the digits of that part. -/
theorem log_two_of_floor {q : ℚ} {t : Int} (hn : 0 < n) (hlow : n ≤ q) (hhigh : q < n + 1) :
    Int.log 2 (q * 2 ^ t) = n.log2 + t := by
  have hpos : 0 < q := lt_of_lt_of_le (by exact_mod_cast hn) hlow
  have hscaled : 0 < q * 2 ^ t := mul_pos hpos (two_zpow_pos t)
  have hnext : ((n + 1 : Nat) : ℚ) ≤ 2 ^ ((n.log2 : Int) + 1) := by
    exact_mod_cast (Nat.lt_log2_self : n < 2 ^ (n.log2 + 1))
  push_cast at hnext
  have hbelow := mul_le_mul_of_nonneg_right ((two_zpow_log2_le hn.ne').trans hlow) (two_zpow_pos t).le
  have habove := mul_lt_mul_of_pos_right (hhigh.trans_le hnext) (two_zpow_pos t)
  rw [← zpow_add₀ two_ne_zero] at hbelow habove
  have hle := (Int.zpow_le_iff_le_log one_lt_two hscaled).mp hbelow
  have hlt := (Int.lt_zpow_iff_log_lt one_lt_two hscaled).mp habove
  omega

/-- The root is rounded from a number that is at least one unit of its own grid. -/
theorem rounds_sqrt (hm : 0 < m) (e : Int) : ∃ q : ℚ, 2 ^ rootExponent m e ≤ q ∧
    Rounds (UnpackedFloat.sqrt .binary64 (.finite .positive m e hm)) q := by
  obtain ⟨accuracy, hcore⟩ : ∃ accuracy,
      sqrtCore .binary64 m e = ((radicand m e).sqrt, rootExponent m e, accuracy) := ⟨_, rfl⟩
  obtain ⟨q, hrepresents, hlow, hhigh⟩ := exists_represents (radicand m e).sqrt accuracy
  have hroot : 0 < (radicand m e).sqrt := Nat.sqrt_pos.mpr (radicand_pos hm e)
  have hone : 1 ≤ q := le_trans (by exact_mod_cast hroot) hlow
  have hpos : 0 < q * 2 ^ rootExponent m e := mul_pos (by linarith) (two_zpow_pos _)
  have hgrid : gridExponent (q * 2 ^ rootExponent m e) =
      max ((radicand m e).sqrt.log2 + rootExponent m e - 52) (-1074) := by
    rw [gridExponent, abs_of_pos hpos, log_two_of_floor hroot hlow hhigh]
  refine ⟨q * 2 ^ rootExponent m e, le_mul_of_one_le_left (two_zpow_pos _).le hone, ?_⟩
  have hsqrt : UnpackedFloat.sqrt .binary64 (.finite .positive m e hm) =
      roundWithAccuracy .binary64 .positive (radicand m e).sqrt (rootExponent m e) accuracy := by
    rw [UnpackedFloat.sqrt, hcore]
  have hrounds := rounds_of_cases .positive (roundWithAccuracy_cases_of_represents .positive hpos
    (by rwa [mul_div_cancel_right₀ _ (two_zpow_pos _).ne'])
    (by rw [targetExponent_eq, totalExponent, hgrid]; omega)
    (by rw [hgrid]; exact rootExponent_le hm e))
  rw [hsqrt]
  simpa [Sign.apply] using hrounds

end Core

/-! ## Roots of outward numbers -/

variable {x : Float}

theorem unpack_sqrt (x : Float) :
    x.sqrt.toModel.unpack = repacked (UnpackedFloat.sqrt .binary64 x.toModel.unpack) :=
  rfl

/-- A positive number does not lose its root to rounding. -/
theorem sqrt_pos (hx : x.isFinite = true) (hpos : 0 < toRat x) :
    x.sqrt.isNaN = false ∧ 0 < toRat x.sqrt := by
  obtain ⟨m, e, hm, hu, hparts⟩ := unpack_of_pos hx hpos
  have hmin := hparts.isOnGrid.min_le
  obtain ⟨q, hlow, hrounds⟩ := rounds_sqrt hm e
  have hsame : rounded (2 ^ rootExponent m e) = 2 ^ rootExponent m e := by
    simpa using rounded_eq_self (m := 1) (by norm_num) (min_le_rootExponent m hmin)
  have hrounded : 0 < rounded q := by
    have hmono := rounded_mono hlow
    rw [hsame] at hmono
    exact (two_zpow_pos _).trans_le hmono
  rw [← hu] at hrounds
  refine ⟨hrounds.isNaN_eq, ?_⟩
  have hvalue : toRat x.sqrt = clamped (rounded q) := hrounds.ratOf_eq
  rw [hvalue, clamped_of_nonneg hrounded.le]
  exact lt_min hrounded beyond_pos

/-- The root of a nonnegative number, infinity included, is one as well, and it is zero only for zero. -/
theorem sqrt_spec (hx : IsOutward .positive x) :
    IsOutward .positive x.sqrt ∧ (toRat x.sqrt = 0 ↔ toRat x = 0) := by
  have hnonneg := hx.nonneg
  rw [along_positive] at hnonneg
  cases hfinite : x.isFinite with
  | false =>
      have hinfinity := hx.unpack_eq hfinite
      have hroot : x.sqrt.toModel.unpack = .infinity .positive := by
        rw [unpack_sqrt, hinfinity]
        rfl
      refine ⟨⟨?_, ?_⟩, ?_⟩
      · show x.sqrt.toModel.unpack.isNaN = false
        rw [hroot]
        rfl
      · rw [IsOutward.along_infinity hroot]
        exact beyond_pos.le
      · rw [toRat, toRat, hroot, hinfinity]
  | true =>
      rcases hnonneg.lt_or_eq with hpos | hzero
      · obtain ⟨hnan, hroot⟩ := sqrt_pos hfinite hpos
        refine ⟨⟨hnan, ?_⟩, iff_of_false hroot.ne' hpos.ne'⟩
        rw [along_positive]
        exact hroot.le
      · have halike : Alike x.sqrt (Float.sqrt 0.0) :=
          (Alike.of_toRat_eq hfinite rfl (hzero.symm.trans toRat_zero.symm)).sqrt
        have hvalue : toRat x.sqrt = 0 := (halike.toRat_eq).trans toRat_zero
        refine ⟨⟨halike.isNaN_eq, ?_⟩, iff_of_true hvalue hzero.symm⟩
        rw [along_positive, hvalue]

end Binary64

end Quantities
