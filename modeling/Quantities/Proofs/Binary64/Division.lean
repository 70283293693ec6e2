import Mathlib
import Quantities.Proofs.Binary64.Addition

/-!
# Quotients of doubles

The quotient of two finite doubles is the double nearest to the quotient of their numbers, with the
infinities standing for what is too large.  Significands are divided as integers on a grid that is fine
enough, and the remainder places the rest of the quotient against one half.
-/

namespace Quantities

namespace Binary64

open Float.Model (UnpackedFloat Format totalExponent)
open Float.Model.UnpackedFloat

/-! ## Quotients of significands -/

/-- An integer quotient with the accuracy of its remainder represents the exact quotient. -/
theorem represents_div (n : Nat) {d : Nat} (hd : 0 < d) :
    Represents (.ofMantissaAndAccuracy (n / d) (accuracyOfFraction (n % d) d)) ((n : ℚ) / d) := by
  have hdpos : (0 : ℚ) < d := by exact_mod_cast hd
  have hsplit : (n : ℚ) / d = (n / d : Nat) + ((n % d : Nat) : ℚ) / d := by
    have hcast : (n : ℚ) = d * (n / d : Nat) + (n % d : Nat) := by
      exact_mod_cast (Nat.div_add_mod n d).symm
    rw [div_eq_iff hdpos.ne', add_mul, div_mul_cancel₀ _ hdpos.ne', mul_comm _ (d : ℚ)]
    exact hcast
  have hrest : ((n % d : Nat) : ℚ) / d < 1 := by
    rw [div_lt_one hdpos]
    exact_mod_cast Nat.mod_lt n hd
  rw [hsplit]
  unfold accuracyOfFraction
  split
  · next hexact =>
    rw [hexact, Nat.cast_zero, zero_div, add_zero]
    exact rfl
  · next hinexact =>
    have hpos : (0 : ℚ) < ((n % d : Nat) : ℚ) / d :=
      div_pos (by exact_mod_cast Nat.pos_of_ne_zero hinexact) hdpos
    rcases lt_trichotomy (2 * (n % d)) d with hlt | heq | hgt
    · have hhalf : ((n % d : Nat) : ℚ) / d < 1 / 2 := by
        rw [div_lt_div_iff₀ hdpos two_pos]
        exact_mod_cast (by omega : n % d * 2 < 1 * d)
      rw [compare_lt_iff_lt.mpr hlt]
      constructor <;> linarith
    · have hhalf : ((n % d : Nat) : ℚ) / d = 1 / 2 := by
        rw [div_eq_div_iff hdpos.ne' two_ne_zero]
        exact_mod_cast (by omega : n % d * 2 = 1 * d)
      rw [compare_eq_iff_eq.mpr heq, hhalf]
      exact rfl
    · have hhalf : 1 / 2 < ((n % d : Nat) : ℚ) / d := by
        rw [div_lt_div_iff₀ two_pos hdpos]
        exact_mod_cast (by omega : 1 * d < n % d * 2)
      rw [compare_gt_iff_gt.mpr hgt]
      constructor <;> linarith

section Core

variable {m n : Nat} {e f : Int}

def quotientExponent (m n : Nat) (e f : Int) : Int :=
  min (e - f) (Format.binary64.targetExponent (totalExponent m e - totalExponent n f))

theorem ratio_pos (hm : 0 < m) (hn : 0 < n) : (0 : ℚ) < m * 2 ^ e / (n * 2 ^ f) :=
  div_pos (scaled_pos hm e) (scaled_pos hn f)

/-- A quotient has at most one digit less than the difference of the digits tells. -/
theorem le_log_ratio (hm : 0 < m) (hn : 0 < n) :
    totalExponent m e - totalExponent n f - 1 ≤ Int.log 2 ((m : ℚ) * 2 ^ e / (n * 2 ^ f)) := by
  have hmlow : (2 : ℚ) ^ (m.log2 : Int) ≤ m := two_zpow_log2_le hm.ne'
  have hnhigh : (n : ℚ) ≤ 2 ^ ((n.log2 : Int) + 1) := (natCast_lt_two_zpow_log2 n).le
  rw [← Int.zpow_le_iff_le_log one_lt_two (ratio_pos hm hn), le_div_iff₀ (scaled_pos hn f)]
  calc (2 : ℚ) ^ (totalExponent m e - totalExponent n f - 1) * (n * 2 ^ f)
      ≤ 2 ^ (totalExponent m e - totalExponent n f - 1) * (2 ^ ((n.log2 : Int) + 1) * 2 ^ f) := by
        gcongr
    _ = 2 ^ (m.log2 : Int) * 2 ^ e := by
        rw [← zpow_add₀ two_ne_zero, ← zpow_add₀ two_ne_zero, ← zpow_add₀ two_ne_zero, totalExponent,
          totalExponent]
        congr 1
        ring
    _ ≤ m * 2 ^ e := by gcongr

theorem quotientExponent_le (hm : 0 < m) (hn : 0 < n) :
    quotientExponent m n e f ≤ gridExponent ((m : ℚ) * 2 ^ e / (n * 2 ^ f)) := by
  have hlog := le_log_ratio (e := e) (f := f) hm hn
  rw [quotientExponent, targetExponent_eq, gridExponent, abs_of_pos (ratio_pos hm hn)]
  omega

/-- The integer quotient and its accuracy represent the exact quotient on its exponent. -/
theorem divCore_eq (m n : Nat) (e f : Int) (hn : 0 < n) : ∃ k accuracy,
    divCore .binary64 m e n f = (k, quotientExponent m n e f, accuracy) ∧
    Represents (.ofMantissaAndAccuracy k accuracy)
      ((m : ℚ) * 2 ^ e / (n * 2 ^ f) / 2 ^ quotientExponent m n e f) ∧
    k = ⌊(m : ℚ) * 2 ^ e / (n * 2 ^ f) / 2 ^ quotientExponent m n e f⌋₊ := by
  have hnpos : (n : ℚ) ≠ 0 := by exact_mod_cast hn.ne'
  have hshift : quotientExponent m n e f = e - f - (e - f - quotientExponent m n e f).toNat := by
    have hle : quotientExponent m n e f ≤ e - f := min_le_left _ _
    omega
  have hvalue : (m : ℚ) * 2 ^ e / (n * 2 ^ f) / 2 ^ quotientExponent m n e f =
      ((m <<< (e - f - quotientExponent m n e f).toNat : Nat) : ℚ) / n := by
    rw [Nat.shiftLeft_eq, Nat.cast_mul, Nat.cast_pow, Nat.cast_ofNat, ← zpow_natCast]
    conv_lhs => rw [hshift]
    rw [zpow_sub₀ two_ne_zero (e - f), zpow_sub₀ two_ne_zero e]
    have he := (two_zpow_pos e).ne'
    have hf := (two_zpow_pos f).ne'
    field_simp
  refine ⟨_, _, rfl, ?_, ?_⟩
  · rw [hvalue]
    exact represents_div _ hn
  · rw [hvalue, Nat.floor_div_eq_div]
    rfl

/-- The digits of the integer quotient show the grid that the exact quotient is rounded to. -/
theorem targetExponent_quotient (hm : 0 < m) (hn : 0 < n) :
    Format.binary64.targetExponent (totalExponent
      ⌊(m : ℚ) * 2 ^ e / (n * 2 ^ f) / 2 ^ quotientExponent m n e f⌋₊ (quotientExponent m n e f)) =
      gridExponent ((m : ℚ) * 2 ^ e / (n * 2 ^ f)) := by
  have hratio := ratio_pos (e := e) (f := f) hm hn
  have hlog := le_log_ratio (e := e) (f := f) hm hn
  have ht : quotientExponent m n e f ≤
      max (totalExponent m e - totalExponent n f - 53) (-1074) := min_le_right _ _
  rw [targetExponent_eq, totalExponent, gridExponent, abs_of_pos hratio]
  generalize (m : ℚ) * 2 ^ e / (n * 2 ^ f) = q at hratio hlog ⊢
  generalize quotientExponent m n e f = t at ht ⊢
  have htpos := two_zpow_pos t
  have hfloor := Nat.floor_le (div_pos hratio htpos).le
  have hceil := Nat.lt_floor_add_one (q / 2 ^ t)
  generalize ⌊q / 2 ^ t⌋₊ = k at hfloor hceil
  rw [le_div_iff₀ htpos] at hfloor
  rw [div_lt_iff₀ htpos] at hceil
  by_cases hk : k = 0
  · -- A quotient below one unit is small enough for the finest grid.
    rw [hk, Nat.cast_zero, zero_add, one_mul] at hceil
    have hlow := (Int.lt_zpow_iff_log_lt one_lt_two hratio).mp hceil
    rw [hk, Nat.log2_zero]
    omega
  · have hsame : Int.log 2 q = k.log2 + t := by
      have hhigh : ((k : ℚ) + 1) * 2 ^ t ≤ 2 ^ ((k.log2 : Int) + 1 + t) := by
        have hnext : ((k + 1 : Nat) : ℚ) ≤ 2 ^ ((k.log2 : Int) + 1) := by
          exact_mod_cast (Nat.lt_log2_self : k < 2 ^ (k.log2 + 1))
        rw [zpow_add₀ two_ne_zero _ t]
        push_cast at hnext
        gcongr
      have hlow : (2 : ℚ) ^ ((k.log2 : Int) + t) ≤ k * 2 ^ t := by
        rw [zpow_add₀ two_ne_zero]
        have hself := two_zpow_log2_le hk
        gcongr
      have hle := (Int.zpow_le_iff_le_log one_lt_two hratio).mp (hlow.trans hfloor)
      have hlt := (Int.lt_zpow_iff_log_lt one_lt_two hratio).mp (hceil.trans_le hhigh)
      omega
    omega

end Core

/-! ## Unpacked quotients -/

theorem ratOf_div_ratOf (s t : Sign) {m n : Nat} (hm : 0 < m) (hn : 0 < n) (e f : Int) :
    ratOf (.finite s m e hm) / ratOf (.finite t n f hn) =
      (s / t).apply 1 * ((m : ℚ) * 2 ^ e / (n * 2 ^ f)) := by
  have hsign : ((s / t).apply 1 : ℤ) = s.apply 1 * t.apply 1 := by
    cases s <;> cases t <;> rfl
  have hunit : ((t.apply 1 : ℤ) : ℚ) * t.apply 1 = 1 := by
    cases t <;> norm_num [Sign.apply]
  have hinverse : ((s.apply 1 : ℤ) : ℚ) / t.apply 1 = s.apply 1 * t.apply 1 := by
    rw [div_eq_iff (left_ne_zero_of_mul_eq_one hunit), mul_assoc, hunit, mul_one]
  rw [ratOf, ratOf, apply_eq_mul, apply_eq_mul t, hsign, Int.cast_mul, mul_assoc, mul_assoc,
    mul_div_mul_comm, hinverse]

theorem rounds_div {u v : UnpackedFloat} (hufin : u.isFinite = true) (hvfin : v.isFinite = true)
    (hv : ratOf v ≠ 0) : Rounds (UnpackedFloat.div .binary64 u v) (ratOf u / ratOf v) := by
  cases v with
  | notANumber => cases hvfin
  | infinity t => cases hvfin
  | zero t => exact absurd (ratOf_zero t) hv
  | finite t n f hn =>
      cases u with
      | notANumber => cases hufin
      | infinity s => cases hufin
      | zero s => exact rounds_zero _ (by rw [ratOf_zero, zero_div, rounded_zero])
      | finite s m e hm =>
          obtain ⟨k, accuracy, hcore, hrepresents, hk⟩ := divCore_eq m n e f hn
          have hquotient : UnpackedFloat.div .binary64 (.finite s m e hm) (.finite t n f hn) =
              roundWithAccuracy .binary64 (s / t) k (quotientExponent m n e f) accuracy := by
            rw [UnpackedFloat.div, hcore]
          rw [hquotient, ratOf_div_ratOf]
          refine rounds_of_cases (s / t) (roundWithAccuracy_cases_of_represents (s / t)
            (ratio_pos hm hn) hrepresents ?_ (quotientExponent_le hm hn))
          rw [hk]
          exact targetExponent_quotient hm hn

/-! ## Quotients -/

variable {x y : Float}

theorem toRat_div (hx : x.isFinite = true) (hy : y.isFinite = true) (hne : toRat y ≠ 0) :
    toRat (x / y) = clamped (rounded (toRat x / toRat y)) :=
  (rounds_div hx hy hne).ratOf_eq

theorem isNaN_div (hx : x.isFinite = true) (hy : y.isFinite = true) (hne : toRat y ≠ 0) :
    (x / y).isNaN = false :=
  (rounds_div hx hy hne).isNaN_eq

end Binary64

end Quantities
