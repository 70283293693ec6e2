import Mathlib
import Quantities.Proofs.Binary64.Order

/-!
# Rounding of unpacked doubles

The rounding of a significand and an exponent is the rounding of their number to the grid.  The digits that
are shifted out on the way are represented by two bits, which place what is left of the number against the
middle between two grid numbers.
-/

namespace Quantities

namespace Binary64

open Float.Model (UnpackedFloat Format totalExponent)
open Float.Model.UnpackedFloat

/-! ## Shifting digits out -/

/-- The mantissa is the whole part of the number, and the residual bits place the rest of it against one
half. -/
def Represents : ExtendedMantissa → ℚ → Prop
  | ⟨m, false, false⟩, q => q = m
  | ⟨m, false, true⟩, q => m < q ∧ q < m + 1 / 2
  | ⟨m, true, false⟩, q => q = m + 1 / 2
  | ⟨m, true, true⟩, q => m + 1 / 2 < q ∧ q < m + 1

theorem Represents.shiftRightOne {em : ExtendedMantissa} {q : ℚ} (h : Represents em q) :
    Represents em.shiftRightOne (q / 2) := by
  obtain ⟨m, roundBit, stickyBit⟩ := em
  have hdigits : (m : ℚ) = 2 * (m / 2 : Nat) + (m % 2 : Nat) := by
    exact_mod_cast (Nat.div_add_mod m 2).symm
  rcases Nat.mod_two_eq_zero_or_one m with heven | hodd
  · have hbit : (m % 2 != 0) = false := by rw [heven]; rfl
    rw [heven, Nat.cast_zero] at hdigits
    cases roundBit <;> cases stickyBit <;>
      simp only [Represents, ExtendedMantissa.shiftRightOne, hbit, Bool.or_false, Bool.or_true] at h ⊢
    · linarith
    · constructor <;> linarith
    · constructor <;> linarith
    · constructor <;> linarith
  · have hbit : (m % 2 != 0) = true := by rw [hodd]; rfl
    rw [hodd, Nat.cast_one] at hdigits
    cases roundBit <;> cases stickyBit <;>
      simp only [Represents, ExtendedMantissa.shiftRightOne, hbit, Bool.or_false, Bool.or_true] at h ⊢
    · linarith
    · constructor <;> linarith
    · constructor <;> linarith
    · constructor <;> linarith

theorem Represents.shiftRight {em : ExtendedMantissa} {q : ℚ} (h : Represents em q) (k : Nat) :
    Represents (em >>> k) (q / 2 ^ k) := by
  induction k with
  | zero => simpa [HShiftRight.hShiftRight, Nat.repeat] using h
  | succ k ih =>
      have hstep : em >>> (k + 1) = (em >>> k).shiftRightOne := rfl
      rw [hstep, pow_succ, ← div_div]
      exact ih.shiftRightOne

theorem Represents.roundedMantissa_eq {em : ExtendedMantissa} {q : ℚ} (h : Represents em q) :
    (em.roundedMantissa : ℤ) = nearestEven q := by
  obtain ⟨m, roundBit, stickyBit⟩ := em
  have hfloor : ⌊q⌋ = m := by
    rw [Int.floor_eq_iff]
    cases roundBit <;> cases stickyBit <;> simp only [Represents] at h <;> push_cast <;>
      constructor <;> linarith
  have hsum := Int.floor_add_fract q
  rw [hfloor, Int.cast_natCast] at hsum
  unfold nearestEven
  rw [hfloor]
  cases roundBit <;> cases stickyBit <;> simp only [Represents] at h
  · rw [if_pos (by linarith)]
    rfl
  · rw [if_pos (by linarith)]
    rfl
  · rw [if_neg (by linarith), if_neg (by linarith)]
    rfl
  · rw [if_neg (by linarith), if_pos (by linarith)]
    rfl

/-! ## Rounding -/

theorem natCast_lt_two_zpow_log2 (n : Nat) : (n : ℚ) < 2 ^ ((n.log2 : Int) + 1) := by
  have h : n < 2 ^ (n.log2 + 1) := Nat.lt_log2_self
  exact_mod_cast h

theorem two_zpow_log2_le {n : Nat} (h : n ≠ 0) : (2 : ℚ) ^ (n.log2 : Int) ≤ n := by
  exact_mod_cast Nat.log2_self_le h

theorem log_two_natCast_mul {m : Nat} (hm : 0 < m) (e : Int) :
    Int.log 2 ((m : ℚ) * 2 ^ e) = m.log2 + e := by
  have hpos := scaled_pos hm e
  have hlow := mul_le_mul_of_nonneg_right (two_zpow_log2_le hm.ne') (two_zpow_pos e).le
  have hhigh := mul_lt_mul_of_pos_right (natCast_lt_two_zpow_log2 m) (two_zpow_pos e)
  rw [← zpow_add₀ two_ne_zero] at hlow hhigh
  have hle := (Int.zpow_le_iff_le_log one_lt_two hpos).mp hlow
  have hlt := (Int.lt_zpow_iff_log_lt one_lt_two hpos).mp hhigh
  omega

theorem targetExponent_eq_gridExponent {m : Nat} (hm : 0 < m) (e : Int) :
    Format.binary64.targetExponent (totalExponent m e) = gridExponent ((m : ℚ) * 2 ^ e) := by
  have hpos := scaled_pos hm e
  rw [targetExponent_eq, totalExponent, gridExponent, abs_of_pos hpos, log_two_natCast_mul hm]
  omega

/-- Digits are shifted out until the number is counted on a coarser grid. -/
theorem shiftToExponent_represents {m : Nat} {e target : Int} {accuracy : Accuracy} {q : ℚ}
    (hq : Represents (.ofMantissaAndAccuracy m accuracy) (q / 2 ^ e)) (h : e ≤ target) :
    ∃ em, shiftToExponent m e accuracy target = (em, target) ∧ Represents em (q / 2 ^ target) := by
  obtain ⟨k, rfl⟩ := Int.le.dest h
  have hamount : (e + k - e).toNat = k := by omega
  have hvalue : q / 2 ^ (e + k) = q / 2 ^ e / 2 ^ k := by
    rw [zpow_add₀ two_ne_zero, zpow_natCast, div_div]
  refine ⟨ExtendedMantissa.ofMantissaAndAccuracy m accuracy >>> k, ?_, ?_⟩
  · rw [shiftToExponent, hamount]
  · rw [hvalue]
    exact hq.shiftRight k

theorem shiftToExponent_self (m : Nat) {e target : Int} (h : target ≤ e) :
    shiftToExponent m e .exact target = (⟨m, false, false⟩, e) := by
  have hamount : (target - e).toNat = 0 := by omega
  rw [shiftToExponent, hamount]
  simp [ExtendedMantissa.ofMantissaAndAccuracy, HShiftRight.hShiftRight, Nat.repeat]

theorem IsOnGrid.beyond_le {m : Nat} {e : Int} (h : IsOnGrid m e) (he : 972 ≤ e) :
    beyond ≤ m * 2 ^ e := by
  have hnormal : (2 : ℚ) ^ (52 : ℤ) ≤ m := by exact_mod_cast h.normal (by omega)
  calc beyond
      ≤ 2 ^ (52 + e) := zpow_le_zpow_right₀ one_le_two (by omega)
    _ = 2 ^ (52 : ℤ) * 2 ^ e := zpow_add₀ two_ne_zero _ _
    _ ≤ m * 2 ^ e := mul_le_mul_of_nonneg_right hnormal (two_zpow_pos e).le

/-- The carry of a rounded mantissa is shifted out without loss. -/
theorem shiftToTargetExponent_rounded {n : Nat} {g : Int} (hmin : -1074 ≤ g) (hn : n ≤ 2 ^ 53) :
    ∃ m e, shiftToTargetExponent .binary64 n g .exact = (⟨m, false, false⟩, e) ∧
      (m : ℚ) * 2 ^ e = n * 2 ^ g ∧
      (0 < n → (-1074 < g → 2 ^ 52 ≤ n) → IsOnGrid m e) := by
  by_cases hcarry : n = 2 ^ 53
  · have hlog : (2 ^ 53 : Nat).log2 = 53 := Nat.log2_two_pow
    have htarget : Format.binary64.targetExponent (totalExponent (2 ^ 53) g) = g + 1 := by
      rw [targetExponent_eq, totalExponent, hlog]
      omega
    have hamount : (g + 1 - g).toNat = 1 := by omega
    refine ⟨2 ^ 52, g + 1, ?_, ?_, fun _ _ => ⟨by norm_num, by norm_num, ?_⟩⟩
    · rw [hcarry, shiftToTargetExponent, htarget, shiftToExponent, hamount]
      simp only [ExtendedMantissa.ofMantissaAndAccuracy]
      rw [show 2 ^ 53 = 2 ^ 52 * 2 ^ 1 by norm_num, shiftRight_exact]
      rfl
    · rw [hcarry, zpow_add₀ two_ne_zero]
      push_cast
      ring
    · have hlog' : (2 ^ 52 : Nat).log2 = 52 := Nat.log2_two_pow
      rw [targetExponent_eq, totalExponent, hlog']
      omega
  · have hlt : n < 2 ^ 53 := by omega
    have hlog : n.log2 < 53 := by
      by_cases hzero : n = 0
      · rw [hzero, Nat.log2_zero]
        norm_num
      · exact (Nat.log2_lt hzero).mpr hlt
    refine ⟨n, g, ?_, rfl, fun hpos hnormal => ⟨hpos, hlt, ?_⟩⟩
    · rw [shiftToTargetExponent, shiftToExponent_self]
      rw [targetExponent_eq, totalExponent]
      omega
    · rw [targetExponent_eq, totalExponent]
      rcases hmin.lt_or_eq with habove | hbottom
      · have hlow : 52 ≤ n.log2 := (Nat.le_log2 hpos.ne').mpr (hnormal habove)
        omega
      · omega

section Grid

variable {q : ℚ}

theorem nearestEven_grid_le (hq : 0 < q) : nearestEven (q / 2 ^ gridExponent q) ≤ 2 ^ 53 := by
  have hbound := lt_two_zpow_gridExponent hq
  rw [zpow_add₀ two_ne_zero] at hbound
  rw [← nearestEven_intCast (2 ^ 53)]
  exact nearestEven_mono (by
    rw [div_le_iff₀ (two_zpow_pos _)]
    exact_mod_cast hbound.le)

theorem le_nearestEven_grid (hq : 0 < q) (hgrid : -1074 < gridExponent q) :
    2 ^ 52 ≤ nearestEven (q / 2 ^ gridExponent q) := by
  have hself : (2 : ℚ) ^ Int.log 2 q ≤ q := Int.zpow_log_le_self one_lt_two hq
  have hlog : Int.log 2 q = 52 + gridExponent q := by
    rw [gridExponent, abs_of_pos hq] at hgrid ⊢
    omega
  rw [hlog, zpow_add₀ two_ne_zero] at hself
  rw [← nearestEven_intCast (2 ^ 52)]
  exact nearestEven_mono (by
    rw [le_div_iff₀ (two_zpow_pos _)]
    exact_mod_cast hself)

/-- Rounding finds the grid number nearest to what the mantissa and its accuracy represent, in parts. -/
theorem roundWithAccuracy_cases_of_represents (s : Sign) {m : Nat} {e : Int} {accuracy : Accuracy}
    (hq : 0 < q) (hrepresents : Represents (.ofMantissaAndAccuracy m accuracy) (q / 2 ^ e))
    (htarget : Format.binary64.targetExponent (totalExponent m e) = gridExponent q)
    (he : e ≤ gridExponent q) :
    (roundWithAccuracy .binary64 s m e accuracy = .zero s ∧ rounded q = 0) ∨
    ∃ n f hn, roundWithAccuracy .binary64 s m e accuracy = .finite s n f hn ∧ IsOnGrid n f ∧
      rounded q = n * 2 ^ f := by
  obtain ⟨em, hshift, hshifted⟩ := shiftToExponent_represents hrepresents he
  have hnearest := hshifted.roundedMantissa_eq
  have hvalue : rounded q = em.roundedMantissa * 2 ^ gridExponent q := by
    rw [rounded, ← hnearest, Int.cast_natCast]
  have hle : em.roundedMantissa ≤ 2 ^ 53 := by
    have hbound := nearestEven_grid_le hq
    rw [← hnearest] at hbound
    exact_mod_cast hbound
  have hnormal : -1074 < gridExponent q → 2 ^ 52 ≤ em.roundedMantissa := by
    intro hgrid
    have hbound := le_nearestEven_grid hq hgrid
    rw [← hnearest] at hbound
    exact_mod_cast hbound
  -- The second shift has work to do only if rounding carried into one more digit.
  obtain ⟨n, f, hagain, hsame, hgridded⟩ :=
    shiftToTargetExponent_rounded (g := gridExponent q) (le_max_right _ _) hle
  have hround : roundWithAccuracy .binary64 s m e accuracy =
      if h : n = 0 then .zero s else .finite s n f (Nat.pos_of_ne_zero h) := by
    rw [roundWithAccuracy, shiftToTargetExponent, htarget, hshift]
    simp only [hagain]
  rw [hround, hvalue, ← hsame]
  by_cases hzero : n = 0
  · left
    rw [dif_pos hzero, hzero, Nat.cast_zero, zero_mul]
    exact ⟨rfl, rfl⟩
  · right
    have hpos : 0 < em.roundedMantissa := by
      refine Nat.pos_of_ne_zero fun hnone => hzero ?_
      rw [hnone, Nat.cast_zero, zero_mul] at hsame
      exact_mod_cast (mul_eq_zero.mp hsame).resolve_right (two_zpow_pos f).ne'
    rw [dif_neg hzero]
    exact ⟨n, f, Nat.pos_of_ne_zero hzero, rfl, hgridded hpos hnormal, rfl⟩

end Grid

section Rounded

variable {m : Nat} {e : Int}

theorem roundWithAccuracy_cases (s : Sign) (hm : 0 < m) (he : e ≤ gridExponent ((m : ℚ) * 2 ^ e)) :
    (roundWithAccuracy .binary64 s m e .exact = .zero s ∧ rounded ((m : ℚ) * 2 ^ e) = 0) ∨
    ∃ n f hn, roundWithAccuracy .binary64 s m e .exact = .finite s n f hn ∧ IsOnGrid n f ∧
      rounded ((m : ℚ) * 2 ^ e) = n * 2 ^ f :=
  roundWithAccuracy_cases_of_represents s (scaled_pos hm e)
    (mul_div_cancel_right₀ (m : ℚ) (two_zpow_pos e).ne') (targetExponent_eq_gridExponent hm e) he

theorem decreaseExponent_snd (m : Nat) (e target : Int) :
    (decreaseExponent m e target).2 = min e target := by
  simp only [decreaseExponent]
  omega

theorem decreaseExponent_value (m : Nat) (e target : Int) :
    ((decreaseExponent m e target).1 : ℚ) * 2 ^ min e target = m * 2 ^ e := by
  have hpow : (((2 ^ (e - target).toNat : Nat) : ℚ)) * 2 ^ min e target = 2 ^ e := by
    rw [Nat.cast_pow, Nat.cast_ofNat, ← zpow_natCast, ← zpow_add₀ two_ne_zero]
    congr 1
    omega
  rw [decreaseExponent, Nat.shiftLeft_eq, Nat.cast_mul, mul_assoc, hpow]

theorem round_cases (s : Sign) (hm : 0 < m) (e : Int) :
    (UnpackedFloat.round .binary64 s m e = .zero s ∧ rounded ((m : ℚ) * 2 ^ e) = 0) ∨
    ∃ n f hn, UnpackedFloat.round .binary64 s m e = .finite s n f hn ∧ IsOnGrid n f ∧
      rounded ((m : ℚ) * 2 ^ e) = n * 2 ^ f := by
  have hvalue := decreaseExponent_value m e (gridExponent ((m : ℚ) * 2 ^ e))
  have hexponent := decreaseExponent_snd m e (gridExponent ((m : ℚ) * 2 ^ e))
  rw [UnpackedFloat.round, targetExponent_eq_gridExponent hm]
  generalize decreaseExponent m e (gridExponent ((m : ℚ) * 2 ^ e)) = decreased at hvalue hexponent ⊢
  obtain ⟨n, f⟩ := decreased
  dsimp only at hvalue hexponent ⊢
  rw [← hexponent] at hvalue
  have hn : 0 < n := by
    refine Nat.pos_of_ne_zero fun hnone => ?_
    rw [hnone, Nat.cast_zero, zero_mul] at hvalue
    exact (scaled_pos hm e).ne hvalue
  have hcases := roundWithAccuracy_cases (e := f) s hn (by
    rw [hvalue, hexponent]
    exact min_le_right _ _)
  rwa [hvalue] at hcases

end Rounded

end Binary64

end Quantities
