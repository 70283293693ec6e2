import Mathlib
import Quantities.Proofs.Binary64.Addition
import Quantities.Proofs.Binary64.TotalOrder

/-!
# The nearest double

Rounding finds the finite double that is nearest to a number, and of two that are equally near the one
whose last bit is zero.  What is rounded to infinity begins half way between the largest double and the
power of two beyond it.
-/

namespace Quantities

namespace Binary64

open Float.Model (UnpackedFloat)
open Float.Model.UnpackedFloat

/-! ## Nearest integers -/

variable {q : ℚ} {m n e : ℤ}

theorem half_le_abs_sub_of_ne (hne : n ≠ nearestEven q) : 1 / 2 ≤ |n - q| := by
  have happart : (1 : ℚ) ≤ |(n : ℚ) - nearestEven q| := by
    exact_mod_cast Int.one_le_abs (sub_ne_zero.mpr hne)
  have hhalf := abs_nearestEven_sub_le q
  have hpath := abs_sub_le (n : ℚ) q (nearestEven q)
  rw [abs_sub_comm q] at hpath
  linarith

theorem abs_nearestEven_sub_le_sub (q : ℚ) (n : ℤ) : |nearestEven q - q| ≤ |n - q| := by
  by_cases hsame : n = nearestEven q
  · rw [hsame]
  · exact (abs_nearestEven_sub_le q).trans (half_le_abs_sub_of_ne hsame)

/-- Another integer is equally near only to a number half way between two, which goes to the even one. -/
theorem nearestEven_emod_two_of_tie (hne : n ≠ nearestEven q)
    (htie : |n - q| = |nearestEven q - q|) : nearestEven q % 2 = 0 := by
  have hfar : 1 / 2 ≤ |nearestEven q - q| := htie ▸ half_le_abs_sub_of_ne hne
  have hsum := Int.floor_add_fract q
  have hlow := Int.fract_nonneg q
  have hhigh := Int.fract_lt_one q
  unfold nearestEven at hfar ⊢
  split_ifs at hfar ⊢ with hbelow habove
  · rw [abs_of_nonpos (by linarith)] at hfar
    linarith
  · push_cast at hfar
    rw [abs_of_nonneg (by linarith)] at hfar
    linarith
  · omega

/-! ## Nearest numbers on the grid -/

theorem abs_rounded_sub_le_grid (q : ℚ) (n : ℤ) :
    |rounded q - q| ≤ |n * 2 ^ gridExponent q - q| := by
  rw [rounded, abs_grid_sub_eq, abs_grid_sub_eq]
  exact mul_le_mul_of_nonneg_right (abs_nearestEven_sub_le_sub _ n) (two_zpow_pos _).le

/-- A number of 53 digits that is not on the grid around a number has fewer digits in front of the grid. -/
theorem exists_grid_or_abs_lt (hq : q ≠ 0) (hm : |m| < 2 ^ 53) (he : -1074 ≤ e) :
    (∃ n : ℤ, (m : ℚ) * 2 ^ e = n * 2 ^ gridExponent q) ∨
      |(m : ℚ) * 2 ^ e| < 2 ^ (52 + gridExponent q) ∧ 2 ^ (52 + gridExponent q) ≤ |q| := by
  by_cases hfine : gridExponent q ≤ e
  · left
    obtain ⟨shift, hshift⟩ := Int.le.dest hfine
    refine ⟨m * 2 ^ shift, ?_⟩
    rw [← hshift, zpow_add₀ two_ne_zero, zpow_natCast, Int.cast_mul, Int.cast_pow, Int.cast_ofNat,
      mul_assoc, mul_comm (2 ^ shift)]
  · right
    have hlog : Int.log 2 |q| = 52 + gridExponent q := by
      rw [gridExponent] at hfine ⊢
      omega
    constructor
    · have hcast : |(m : ℚ)| < 2 ^ (53 : ℤ) := by exact_mod_cast hm
      calc |(m : ℚ) * 2 ^ e|
          = |(m : ℚ)| * 2 ^ e := by rw [abs_mul, abs_of_pos (two_zpow_pos e)]
        _ < 2 ^ (53 : ℤ) * 2 ^ e := mul_lt_mul_of_pos_right hcast (two_zpow_pos e)
        _ = 2 ^ (53 + e) := (zpow_add₀ two_ne_zero _ _).symm
        _ ≤ 2 ^ (52 + gridExponent q) := zpow_le_zpow_right₀ one_le_two (by omega)
    · rw [← hlog]
      exact Int.zpow_log_le_self one_lt_two (abs_pos.mpr hq)

/-- A power of two on the grid lies between a number and what has fewer digits in front of the grid. -/
theorem abs_rounded_sub_lt {r : ℚ} (hr : |r| < 2 ^ (52 + gridExponent q))
    (hq : 2 ^ (52 + gridExponent q) ≤ |q|) : |rounded q - q| < |r - q| := by
  have hpower : (2 : ℚ) ^ (52 + gridExponent q) = ((2 ^ 52 : ℤ) : ℚ) * 2 ^ gridExponent q := by
    rw [zpow_add₀ two_ne_zero]
    rfl
  have hbetween : |rounded q - q| ≤ |q| - 2 ^ (52 + gridExponent q) := by
    rcases le_total 0 q with hpos | hneg
    · rw [abs_of_nonneg hpos] at hq ⊢
      refine (abs_rounded_sub_le_grid q (2 ^ 52)).trans_eq ?_
      rw [← hpower, abs_of_nonpos (by linarith)]
      ring
    · rw [abs_of_nonpos hneg] at hq ⊢
      refine (abs_rounded_sub_le_grid q (-2 ^ 52)).trans_eq ?_
      rw [Int.cast_neg, neg_mul, ← hpower, abs_of_nonneg (by linarith)]
      ring
  have hpath := abs_sub_abs_le_abs_sub q r
  rw [abs_sub_comm q r] at hpath
  linarith

/-- No number of 53 digits is nearer than the rounded one. -/
theorem abs_rounded_sub_le_sub (q : ℚ) (hm : |m| < 2 ^ 53) (he : -1074 ≤ e) :
    |rounded q - q| ≤ |m * 2 ^ e - q| := by
  by_cases hq : q = 0
  · rw [hq, rounded_zero, sub_zero, abs_zero]
    exact abs_nonneg _
  rcases exists_grid_or_abs_lt hq hm he with ⟨n, hn⟩ | ⟨hlow, hhigh⟩
  · rw [hn]
    exact abs_rounded_sub_le_grid q n
  · exact (abs_rounded_sub_lt hlow hhigh).le

/-- If another number of 53 digits is equally near, the rounded one is even on the grid. -/
theorem nearestEven_grid_emod_two_of_tie (hm : |m| < 2 ^ 53) (he : -1074 ≤ e)
    (hne : (m : ℚ) * 2 ^ e ≠ rounded q) (htie : |m * 2 ^ e - q| = |rounded q - q|) :
    nearestEven (q / 2 ^ gridExponent q) % 2 = 0 := by
  have hq : q ≠ 0 := by
    rintro rfl
    rw [rounded_zero, sub_zero, sub_zero, abs_zero, abs_eq_zero] at htie
    exact hne (htie.trans rounded_zero.symm)
  rcases exists_grid_or_abs_lt hq hm he with ⟨n, hn⟩ | ⟨hlow, hhigh⟩
  · have hgrid := two_zpow_pos (gridExponent q)
    rw [hn, rounded, abs_grid_sub_eq, abs_grid_sub_eq] at htie
    refine nearestEven_emod_two_of_tie (n := n) ?_ (mul_right_cancel₀ hgrid.ne' htie)
    rintro rfl
    exact hne hn
  · exact absurd htie (abs_rounded_sub_lt hlow hhigh).ne'

/-! ## Overflow -/

/-- Half way between the largest double and the power of two beyond it. -/
def overflowStart : ℚ :=
  beyond - 2 ^ (970 : ℤ)

theorem beyond_eq : beyond = 2 ^ 54 * 2 ^ (970 : ℤ) := by
  rw [beyond, show (1024 : ℤ) = (54 : ℕ) + 970 by norm_num, zpow_add₀ two_ne_zero, zpow_natCast]

theorem overflowStart_eq : overflowStart = (2 ^ 54 - 1) * 2 ^ (970 : ℤ) := by
  rw [overflowStart, beyond_eq, sub_mul, one_mul]

/-- Half way to the power of two beyond the doubles, the even neighbour is that power. -/
theorem rounded_overflowStart : rounded overflowStart = beyond := by
  have hpos : 0 < overflowStart := by
    rw [overflowStart_eq]
    exact mul_pos (by norm_num) (two_zpow_pos _)
  have hlog : Int.log 2 overflowStart = 1023 := by
    have hlow : (2 : ℚ) ^ (1023 : ℤ) ≤ overflowStart := by
      rw [overflowStart_eq, show (1023 : ℤ) = (53 : ℕ) + 970 by norm_num, zpow_add₀ two_ne_zero,
        zpow_natCast]
      exact mul_le_mul_of_nonneg_right (by norm_num) (two_zpow_pos _).le
    have hhigh : overflowStart < 2 ^ (1024 : ℤ) := sub_lt_self _ (two_zpow_pos _)
    have hle := (Int.zpow_le_iff_le_log one_lt_two hpos).mp hlow
    have hlt := (Int.lt_zpow_iff_log_lt one_lt_two hpos).mp hhigh
    omega
  have hgrid : gridExponent overflowStart = 971 := by
    rw [gridExponent, abs_of_pos hpos, hlog]
    rfl
  have hunits : overflowStart / 2 ^ (971 : ℤ) = 2 ^ 53 - 1 / 2 := by
    rw [overflowStart_eq, div_eq_iff (two_zpow_pos _).ne', show (971 : ℤ) = 1 + 970 by norm_num,
      zpow_add₀ two_ne_zero]
    ring
  have hnearest : nearestEven (2 ^ 53 - 1 / 2) = 2 ^ 53 := by
    norm_num [nearestEven]
  rw [rounded, hgrid, hunits, hnearest, beyond, show (1024 : ℤ) = (53 : ℕ) + 971 by norm_num,
    zpow_add₀ two_ne_zero, zpow_natCast]
  rfl

theorem rounded_lt_beyond_iff : rounded q < beyond ↔ q < overflowStart := by
  constructor
  · intro h
    by_contra hlarge
    have hmono := rounded_mono (not_lt.mp hlarge)
    rw [rounded_overflowStart] at hmono
    exact absurd h (not_lt.mpr hmono)
  · intro h
    have hdigits : |(2 ^ 53 - 1 : ℤ)| < 2 ^ 53 := by norm_num
    have hself : rounded (((2 ^ 53 - 1 : ℤ) : ℚ) * 2 ^ (971 : ℤ)) =
        ((2 ^ 53 - 1 : ℤ) : ℚ) * 2 ^ (971 : ℤ) := rounded_eq_self hdigits (by norm_num)
    have hclosest := abs_rounded_sub_le_sub q (e := 971) hdigits (by norm_num)
    have hlargest : ((2 ^ 53 - 1 : ℤ) : ℚ) * 2 ^ (971 : ℤ) = (2 ^ 54 - 2) * 2 ^ (970 : ℤ) := by
      rw [show (971 : ℤ) = 1 + 970 by norm_num, zpow_add₀ two_ne_zero, ← mul_assoc]
      norm_num
    have hunit : (0 : ℚ) < 2 ^ (970 : ℤ) := two_zpow_pos _
    rw [hlargest] at hself hclosest
    rw [overflowStart_eq] at h
    rw [beyond_eq]
    generalize (2 : ℚ) ^ (970 : ℤ) = unit at *
    rcases le_total q ((2 ^ 54 - 2) * unit) with hsmall | hlarge
    · have hmono := rounded_mono hsmall
      rw [hself] at hmono
      linarith
    · rw [abs_of_nonpos (sub_nonpos.mpr hlarge)] at hclosest
      have hup := le_abs_self (rounded q - q)
      linarith

/-! ## The nearest double -/

def signedRat (negative : Bool) (magnitude : ℚ) : ℚ :=
  if negative then -magnitude else magnitude

/--
The finite double with the sign of a number that is nearest to it; another one that is equally near leaves
only that with an even last bit.
-/
structure IsNearest (negative : Bool) (magnitude : ℚ) (x : Float) : Prop where
  isFinite : x.isFinite = true
  isNegative_eq : isNegative x = negative
  le : ∀ y : Float, y.isFinite = true →
    |toRat x - signedRat negative magnitude| ≤ |toRat y - signedRat negative magnitude|
  even : ∀ y : Float, y.isFinite = true → toRat y ≠ toRat x →
    |toRat y - signedRat negative magnitude| = |toRat x - signedRat negative magnitude| →
    x.toBits.toNat % 2 = 0

theorem abs_nearestEven_grid_le (q : ℚ) : |nearestEven (q / 2 ^ gridExponent q)| ≤ 2 ^ 53 := by
  have hgrid : gridExponent (-q) = gridExponent q := by rw [gridExponent, gridExponent, abs_neg]
  have hnonneg {p : ℚ} (hp : 0 < p) : 0 ≤ nearestEven (p / 2 ^ gridExponent p) := by
    rw [← nearestEven_intCast 0]
    refine nearestEven_mono ?_
    rw [Int.cast_zero]
    exact (div_pos hp (two_zpow_pos _)).le
  rcases lt_trichotomy q 0 with hneg | rfl | hpos
  · have hle := nearestEven_grid_le (neg_pos.mpr hneg)
    have hlow := hnonneg (neg_pos.mpr hneg)
    rw [hgrid, neg_div, nearestEven_neg] at hle hlow
    rwa [abs_of_nonpos (by omega)]
  · have hzero : nearestEven 0 = 0 := nearestEven_intCast 0
    rw [zero_div, hzero, abs_zero]
    norm_num
  · rw [abs_of_nonneg (hnonneg hpos)]
    exact nearestEven_grid_le hpos

/-- A double whose number is even on some grid of at most 53 digits has an even last bit. -/
theorem toNat_toBits_mod_two {x : Float} {g : ℤ} (hx : x.isFinite = true) (hmin : -1074 ≤ g)
    (hn : |n| ≤ 2 ^ 53) (heven : n % 2 = 0) (hvalue : toRat x = n * 2 ^ g) :
    x.toBits.toNat % 2 = 0 := by
  have hbits := toNat_toBits_eq x
  have hfinite : x.toModel.unpack.isFinite = true := hx
  cases hu : x.toModel.unpack with
  | notANumber => rw [hu] at hfinite; cases hfinite
  | infinity s => rw [hu] at hfinite; cases hfinite
  | zero s =>
      rw [below_of_unpack_zero hu] at hbits
      split at hbits <;> omega
  | finite s m e hm =>
      have hparts := isParts_of_unpack hu
      have hmagnitude : (m : ℚ) * 2 ^ e = |(n : ℚ)| * 2 ^ g := by
        rw [← abs_of_pos (two_zpow_pos g), ← abs_mul, ← hvalue, toRat, hu, ratOf, abs_mul,
          abs_apply_natCast, abs_of_pos (two_zpow_pos e)]
      have hsignificand : m % 2 = 0 := by
        rcases le_or_gt e g with hle | hgt
        · obtain ⟨shift, rfl⟩ := Int.le.dest hle
          have hsame : (m : ℤ) = |n| * 2 ^ shift := by
            rw [zpow_add₀ two_ne_zero, zpow_natCast, mul_comm (2 ^ e), ← mul_assoc] at hmagnitude
            exact_mod_cast mul_right_cancel₀ (two_zpow_pos e).ne' hmagnitude
          have hdvd : (2 : ℤ) ∣ |n| * 2 ^ shift :=
            ((dvd_abs 2 n).mpr (Int.dvd_of_emod_eq_zero heven)).mul_right _
          omega
        · -- A coarser grid than the given one is reached by a carry only.
          obtain ⟨shift, rfl⟩ := Int.le.dest (Int.add_one_le_of_lt hgt)
          have hsame : |n| = m * (2 * 2 ^ shift) := by
            rw [add_assoc, zpow_add₀ two_ne_zero, zpow_add₀ two_ne_zero, zpow_natCast, zpow_one,
              mul_comm (2 ^ g), ← mul_assoc] at hmagnitude
            exact_mod_cast (mul_right_cancel₀ (two_zpow_pos g).ne' hmagnitude).symm
          have hnormal := hparts.isOnGrid.normal (by omega)
          have hpow : 1 ≤ (2 : ℤ) ^ shift := one_le_pow₀ one_le_two
          have hcarry : m = 2 ^ 52 := by nlinarith
          rw [hcarry]
          rfl
      rw [below_of_unpack_finite hu, place] at hbits
      split at hbits <;> omega

theorem isNearest_of_toRat_eq {negative : Bool} {magnitude : ℚ} {x : Float} (hx : x.isFinite = true)
    (hsign : isNegative x = negative) (hvalue : toRat x = rounded (signedRat negative magnitude)) :
    IsNearest negative magnitude x where
  isFinite := hx
  isNegative_eq := hsign
  le y hy := by
    obtain ⟨m, e, hm, he, hy⟩ := exists_parts_of_isFinite hy
    rw [hvalue, hy]
    exact abs_rounded_sub_le_sub _ hm he
  even y hy hne htie := by
    obtain ⟨m, e, hm, he, hy⟩ := exists_parts_of_isFinite hy
    rw [hvalue, hy] at hne htie
    exact toNat_toBits_mod_two hx (le_max_right _ _) (abs_nearestEven_grid_le _)
      (nearestEven_grid_emod_two_of_tie hm he hne htie) hvalue

end Binary64

end Quantities
