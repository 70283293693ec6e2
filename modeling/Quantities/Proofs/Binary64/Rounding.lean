import Mathlib

/-!
# Rounding to the grid of doubles

An exact result is rounded to the nearest multiple of a power of two that its magnitude determines, as
if exponents had no upper end.  Rounding keeps the order of numbers, leaves the numbers of doubles where
they are, and moves a multiple of the smallest double by a relative error of at most `2 ^ -53`.  Only what
is at most half the smallest double is lost.
-/

namespace Quantities

namespace Binary64

/-! ## Nearest integers -/

/-- The nearest integer; a number half way between two goes to the even one. -/
def nearestEven (q : ℚ) : ℤ :=
  if Int.fract q < 1 / 2 then ⌊q⌋
  else if 1 / 2 < Int.fract q then ⌊q⌋ + 1
  else ⌊q⌋ + ⌊q⌋ % 2

theorem floor_le_nearestEven (q : ℚ) : ⌊q⌋ ≤ nearestEven q := by
  have hparity := Int.emod_nonneg ⌊q⌋ two_ne_zero
  unfold nearestEven
  split_ifs <;> omega

theorem nearestEven_le_floor_add_one (q : ℚ) : nearestEven q ≤ ⌊q⌋ + 1 := by
  have hparity := Int.emod_lt_of_pos ⌊q⌋ two_pos
  unfold nearestEven
  split_ifs <;> omega

@[simp] theorem nearestEven_intCast (n : ℤ) : nearestEven n = n := by
  simp [nearestEven]

theorem nearestEven_mono : Monotone nearestEven := by
  intro p q hpq
  rcases (Int.floor_mono hpq).lt_or_eq with hlt | heq
  · have hp := nearestEven_le_floor_add_one p
    have hq := floor_le_nearestEven q
    omega
  · have hfract : Int.fract p ≤ Int.fract q := by
      rw [Int.fract, Int.fract, heq]
      linarith
    have hparity := Int.emod_nonneg ⌊q⌋ two_ne_zero
    have hparity' := Int.emod_lt_of_pos ⌊q⌋ two_pos
    unfold nearestEven
    rw [heq]
    split_ifs <;> first | omega | linarith

theorem nearestEven_neg (q : ℚ) : nearestEven (-q) = -nearestEven q := by
  by_cases hint : Int.fract q = 0
  · obtain ⟨n, hn⟩ := Int.fract_eq_zero_iff.mp hint
    rw [← hn, ← Int.cast_neg, nearestEven_intCast, nearestEven_intCast]
  · have hfract : Int.fract (-q) = 1 - Int.fract q := Int.fract_neg hint
    have hfloor : ⌊-q⌋ = -⌊q⌋ - 1 := by
      have hsum : ((⌊-q⌋ : ℤ) : ℚ) = ((-⌊q⌋ - 1 : ℤ) : ℚ) := by
        push_cast
        linarith [Int.floor_add_fract q, Int.floor_add_fract (-q)]
      exact_mod_cast hsum
    unfold nearestEven
    rw [hfract, hfloor]
    split_ifs <;> first | omega | linarith

theorem abs_nearestEven_sub_le (q : ℚ) : |nearestEven q - q| ≤ 1 / 2 := by
  have hsum := Int.floor_add_fract q
  have hlow := Int.fract_nonneg q
  have hhigh := Int.fract_lt_one q
  unfold nearestEven
  split_ifs with hbelow habove
  · rw [abs_le]
    constructor <;> linarith
  · push_cast
    rw [abs_le]
    constructor <;> linarith
  · rcases Int.emod_two_eq_zero_or_one ⌊q⌋ with heven | hodd
    · rw [heven, abs_le]
      push_cast
      constructor <;> linarith
    · rw [hodd, abs_le]
      push_cast
      constructor <;> linarith

/-! ## The grid -/

/-- The exponent of the grid around a number: 53 binary digits, and never below that of the smallest
double. -/
def gridExponent (q : ℚ) : ℤ :=
  max (Int.log 2 |q| - 52) (-1074)

def rounded (q : ℚ) : ℚ :=
  nearestEven (q / 2 ^ gridExponent q) * 2 ^ gridExponent q

theorem two_zpow_pos (k : ℤ) : (0 : ℚ) < 2 ^ k :=
  zpow_pos two_pos k

theorem scaled_pos {m : Nat} (hm : 0 < m) (k : ℤ) : (0 : ℚ) < m * 2 ^ k :=
  mul_pos (by exact_mod_cast hm) (two_zpow_pos k)

@[simp] theorem rounded_zero : rounded 0 = 0 := by
  have hzero : nearestEven 0 = 0 := by simpa using nearestEven_intCast 0
  simp [rounded, hzero]

theorem rounded_neg (q : ℚ) : rounded (-q) = -rounded q := by
  have hgrid : gridExponent (-q) = gridExponent q := by rw [gridExponent, gridExponent, abs_neg]
  rw [rounded, rounded, hgrid, neg_div, nearestEven_neg, Int.cast_neg, neg_mul]

theorem le_rounded {q : ℚ} {n : ℤ} (h : n * 2 ^ gridExponent q ≤ q) :
    n * 2 ^ gridExponent q ≤ rounded q := by
  have hn : n ≤ nearestEven (q / 2 ^ gridExponent q) := by
    rw [← nearestEven_intCast n]
    exact nearestEven_mono ((le_div_iff₀ (two_zpow_pos _)).mpr h)
  unfold rounded
  gcongr

theorem rounded_le {q : ℚ} {n : ℤ} (h : q ≤ n * 2 ^ gridExponent q) :
    rounded q ≤ n * 2 ^ gridExponent q := by
  have hn : nearestEven (q / 2 ^ gridExponent q) ≤ n := by
    rw [← nearestEven_intCast n]
    exact nearestEven_mono ((div_le_iff₀ (two_zpow_pos _)).mpr h)
  unfold rounded
  gcongr

theorem rounded_nonneg {q : ℚ} (h : 0 ≤ q) : 0 ≤ rounded q := by
  simpa using le_rounded (q := q) (n := 0) (by simpa using h)

/-- A number has at most 53 digits in front of its grid. -/
theorem lt_two_zpow_gridExponent {q : ℚ} (h : 0 < q) : q < 2 ^ (53 + gridExponent q) := by
  have hlog : q < 2 ^ (Int.log 2 q + 1) := Int.lt_zpow_succ_log_self one_lt_two q
  refine hlog.trans_le (zpow_le_zpow_right₀ one_le_two ?_)
  rw [gridExponent, abs_of_pos h]
  omega

theorem rounded_mono_of_pos {p q : ℚ} (hp : 0 < p) (hpq : p ≤ q) : rounded p ≤ rounded q := by
  have hq : 0 < q := hp.trans_le hpq
  have hlog : Int.log 2 p ≤ Int.log 2 q := Int.log_mono_right hp hpq
  have hgridp : gridExponent p = max (Int.log 2 p - 52) (-1074) := by rw [gridExponent, abs_of_pos hp]
  have hgridq : gridExponent q = max (Int.log 2 q - 52) (-1074) := by rw [gridExponent, abs_of_pos hq]
  rcases (show gridExponent p ≤ gridExponent q by omega).lt_or_eq with hlt | heq
  · -- A power of two on both grids lies between the two numbers.
    have hbelow : p ≤ ((2 ^ 53 : ℤ) : ℚ) * 2 ^ gridExponent p := by
      have hbound := (lt_two_zpow_gridExponent hp).le
      rwa [zpow_add₀ two_ne_zero] at hbound
    have habove : ((2 ^ 52 : ℤ) : ℚ) * 2 ^ gridExponent q ≤ q := by
      have hself : (2 : ℚ) ^ Int.log 2 q ≤ q := Int.zpow_log_le_self one_lt_two hq
      rwa [show Int.log 2 q = 52 + gridExponent q by omega, zpow_add₀ two_ne_zero] at hself
    calc rounded p
        ≤ ((2 ^ 53 : ℤ) : ℚ) * 2 ^ gridExponent p := rounded_le hbelow
      _ = (2 : ℚ) ^ (53 + gridExponent p) := by rw [zpow_add₀ two_ne_zero]; rfl
      _ ≤ (2 : ℚ) ^ (52 + gridExponent q) := zpow_le_zpow_right₀ one_le_two (by omega)
      _ = ((2 ^ 52 : ℤ) : ℚ) * 2 ^ gridExponent q := by rw [zpow_add₀ two_ne_zero]; rfl
      _ ≤ rounded q := le_rounded habove
  · unfold rounded
    rw [heq]
    gcongr
    exact_mod_cast nearestEven_mono (div_le_div_of_nonneg_right hpq (two_zpow_pos _).le)

theorem rounded_mono : Monotone rounded := by
  intro p q hpq
  rcases lt_trichotomy p 0 with hp | rfl | hp
  · rcases lt_or_ge q 0 with hq | hq
    · have hneg := rounded_mono_of_pos (neg_pos.mpr hq) (neg_le_neg hpq)
      rw [rounded_neg, rounded_neg] at hneg
      exact neg_le_neg_iff.mp hneg
    · have hneg := rounded_nonneg (neg_nonneg.mpr hp.le)
      rw [rounded_neg] at hneg
      linarith [rounded_nonneg hq]
  · rw [rounded_zero]
    exact rounded_nonneg hpq
  · exact rounded_mono_of_pos hp hpq

theorem rounded_abs (q : ℚ) : rounded |q| = |rounded q| := by
  rcases le_total 0 q with hq | hq
  · rw [abs_of_nonneg hq, abs_of_nonneg (rounded_nonneg hq)]
  · have hneg := rounded_nonneg (neg_nonneg.mpr hq)
    rw [abs_of_nonpos hq, ← abs_neg, ← rounded_neg, abs_of_nonneg hneg]

/-! ## Numbers on the grid -/

theorem gridExponent_le {m e : ℤ} (hm : |m| < 2 ^ 53) (hm0 : m ≠ 0) (he : -1074 ≤ e) :
    gridExponent (m * 2 ^ e) ≤ e := by
  have hpos : (0 : ℚ) < |(m : ℚ) * 2 ^ e| :=
    abs_pos.mpr (mul_ne_zero (by exact_mod_cast hm0) (two_zpow_pos e).ne')
  have hlt : |(m : ℚ) * 2 ^ e| < 2 ^ (53 + e) := by
    have hcast : |(m : ℚ)| < 2 ^ (53 : ℤ) := by exact_mod_cast hm
    rw [abs_mul, abs_of_pos (two_zpow_pos e), zpow_add₀ two_ne_zero]
    exact mul_lt_mul_of_pos_right hcast (two_zpow_pos e)
  have hlog := (Int.lt_zpow_iff_log_lt one_lt_two hpos).mp hlt
  rw [gridExponent]
  omega

/-- A number of 53 digits on a grid that is not too fine is left alone. -/
theorem rounded_eq_self {m e : ℤ} (hm : |m| < 2 ^ 53) (he : -1074 ≤ e) :
    rounded (m * 2 ^ e) = m * 2 ^ e := by
  by_cases hm0 : m = 0
  · simp [hm0]
  have hgrid := gridExponent_le hm hm0 he
  have hshift : (2 : ℚ) ^ e =
      ((2 ^ (e - gridExponent (m * 2 ^ e)).toNat : ℤ) : ℚ) * 2 ^ gridExponent (m * 2 ^ e) := by
    push_cast
    rw [← zpow_natCast, ← zpow_add₀ two_ne_zero]
    congr 1
    omega
  unfold rounded
  generalize gridExponent (m * 2 ^ e) = g at hshift
  rw [hshift, ← mul_assoc, mul_div_cancel_right₀ _ (two_zpow_pos g).ne', ← Int.cast_mul,
    nearestEven_intCast]

theorem abs_grid_sub_eq (q : ℚ) (n : ℤ) :
    |n * 2 ^ gridExponent q - q| = |n - q / 2 ^ gridExponent q| * 2 ^ gridExponent q := by
  have hgrid := two_zpow_pos (gridExponent q)
  rw [← abs_of_pos hgrid, ← abs_mul, abs_of_pos hgrid, sub_mul, div_mul_cancel₀ _ hgrid.ne']

/-- The relative error of rounding a multiple of the smallest double. -/
theorem abs_rounded_sub_le {q : ℚ} {k : ℤ} (hq : q = k * 2 ^ (-1074 : ℤ)) :
    |rounded q - q| ≤ 2 ^ (-53 : ℤ) * |q| := by
  by_cases hk : |k| < 2 ^ 53
  · rw [hq, rounded_eq_self hk le_rfl, sub_self, abs_zero]
    positivity
  · have hlarge : (2 : ℚ) ^ (-1021 : ℤ) ≤ |q| := by
      have hcast : (2 : ℚ) ^ (53 : ℤ) ≤ |(k : ℚ)| := by exact_mod_cast not_lt.mp hk
      rw [hq, abs_mul, abs_of_pos (two_zpow_pos (-1074)),
        show (-1021 : ℤ) = 53 + -1074 by norm_num, zpow_add₀ two_ne_zero]
      exact mul_le_mul_of_nonneg_right hcast (two_zpow_pos _).le
    have hpos : 0 < |q| := (two_zpow_pos _).trans_le hlarge
    have hself : (2 : ℚ) ^ Int.log 2 |q| ≤ |q| := Int.zpow_log_le_self one_lt_two hpos
    have hlog : -1021 ≤ Int.log 2 |q| := (Int.zpow_le_iff_le_log one_lt_two hpos).mp hlarge
    have hgrid : gridExponent q = -52 + Int.log 2 |q| := by
      rw [gridExponent]
      omega
    have herror := abs_nearestEven_sub_le (q / 2 ^ gridExponent q)
    rw [rounded, abs_grid_sub_eq]
    calc |nearestEven (q / 2 ^ gridExponent q) - q / 2 ^ gridExponent q| * 2 ^ gridExponent q
        ≤ 1 / 2 * 2 ^ gridExponent q := mul_le_mul_of_nonneg_right herror (two_zpow_pos _).le
      _ = 2 ^ (-53 : ℤ) * 2 ^ Int.log 2 |q| := by
          rw [hgrid, zpow_add₀ two_ne_zero, ← mul_assoc]
          norm_num
      _ ≤ 2 ^ (-53 : ℤ) * |q| := mul_le_mul_of_nonneg_left hself (two_zpow_pos _).le

/-! ## Underflow -/

theorem nearestEven_eq_zero_iff (q : ℚ) : nearestEven q = 0 ↔ |q| ≤ 1 / 2 := by
  have hhalf : nearestEven (1 / 2) = 0 := by norm_num [nearestEven]
  constructor
  · intro h
    have herror := abs_nearestEven_sub_le q
    rwa [h, Int.cast_zero, zero_sub, abs_neg] at herror
  · intro h
    obtain ⟨hlow, hhigh⟩ := abs_le.mp h
    have hle := nearestEven_mono hhigh
    have hge := nearestEven_mono hlow
    rw [nearestEven_neg, hhalf] at hge
    omega

/-- Only what is at most half the smallest double is rounded to zero. -/
theorem rounded_eq_zero_iff (q : ℚ) : rounded q = 0 ↔ |q| ≤ 2 ^ (-1075 : ℤ) := by
  have hunit : |q| ≤ 2 ^ (gridExponent q - 1) ↔ rounded q = 0 := by
    have hgrid := two_zpow_pos (gridExponent q)
    rw [rounded, mul_eq_zero, or_iff_left hgrid.ne', Int.cast_eq_zero, nearestEven_eq_zero_iff, abs_div,
      abs_of_pos hgrid, div_le_iff₀ hgrid, zpow_sub_one₀ two_ne_zero, one_div, mul_comm]
  rw [← hunit]
  constructor
  · intro h
    by_cases hzero : q = 0
    · rw [hzero, abs_zero]
      exact (two_zpow_pos _).le
    · -- a grid above the finest one has digits of the number in front of it
      have hlog : Int.log 2 |q| ≤ gridExponent q - 1 := by
        rw [← Int.lt_add_one_iff, ← Int.lt_zpow_iff_log_lt one_lt_two (abs_pos.mpr hzero)]
        exact h.trans_lt (zpow_lt_zpow_right₀ one_lt_two (by omega))
      have hfinest : gridExponent q = -1074 := by
        rw [gridExponent] at hlog ⊢
        omega
      rwa [hfinest] at h
  · intro h
    have hfinest : -1074 ≤ gridExponent q := le_max_right _ _
    exact h.trans (zpow_le_zpow_right₀ one_le_two (by omega))

end Binary64

end Quantities
