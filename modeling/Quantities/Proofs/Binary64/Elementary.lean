import Mathlib
import Quantities.Binary64.Elementary
import Quantities.Proofs.Binary64.Magnitude

/-!
# Elementary functions of finite doubles

The fixed-point series stay within bounds that depend on the number of their terms only.  Logarithms of
positive finite doubles are therefore finite, exponentials of finite doubles are never NaN, and rounding to
an integer cannot overflow.
-/

namespace Quantities

/-! ## Fixed-point series -/

namespace FixedPoint

theorem one_pos : 0 < one := by
  decide +kernel

theorem one_eq : one = (2 ^ fractionBits : Nat) := by
  rw [one, Nat.shiftLeft_eq, Nat.one_mul]

theorem mul_eq (x y : Int) : mul x y = x * y / one := by
  rw [mul, Int.shiftRight_eq_div_pow, one_eq]

theorem abs_ediv_le {x d n : Int} (hd : 0 < d) (h : |x| ≤ n * d) : |x / d| ≤ n := by
  obtain ⟨hlow, hhigh⟩ := abs_le.mp h
  rw [abs_le]
  constructor
  · rw [Int.le_ediv_iff_mul_le hd, neg_mul]
    exact hlow
  · exact Int.ediv_le_of_le_mul hd hhigh

section Arctanh

variable {square power odd : Int}

theorem abs_arctanhTerms_le (hlow : 0 ≤ square) (hhigh : square ≤ one) (terms : Nat)
    (hpower : |power| ≤ one) (hodd : 0 < odd) :
    |arctanhTerms square terms power odd| ≤ terms * one := by
  induction terms generalizing power odd with
  | zero => simp [arctanhTerms]
  | succ terms ih =>
      have hterm : |power / odd| ≤ one :=
        abs_ediv_le hodd (hpower.trans (le_mul_of_one_le_right one_pos.le hodd))
      have hnext : |mul power square| ≤ one := by
        rw [mul_eq]
        refine abs_ediv_le one_pos ?_
        rw [abs_mul, abs_of_nonneg hlow]
        exact mul_le_mul hpower hhigh hlow one_pos.le
      calc |arctanhTerms square (terms + 1) power odd|
          ≤ |power / odd| + |arctanhTerms square terms (mul power square) (odd + 2)| := abs_add_le _ _
        _ ≤ one + terms * one := add_le_add hterm (ih hnext (by omega))
        _ = (terms + 1 : Nat) * one := by
            push_cast
            ring

theorem abs_arctanh_le {x : Int} (hx : |x| ≤ one) : |arctanh x| ≤ 104 * one := by
  have hhigh : mul x x ≤ one := by
    rw [mul_eq, ← abs_mul_abs_self x]
    exact Int.ediv_le_of_le_mul one_pos (mul_le_mul hx hx (abs_nonneg x) one_pos.le)
  have hlow : 0 ≤ mul x x := by
    rw [mul_eq]
    exact Int.ediv_nonneg (mul_self_nonneg x) one_pos.le
  exact abs_arctanhTerms_le hlow hhigh 104 hx (by norm_num)

end Arctanh

/-- The logarithm of a double is counted in less than `2 ^ 11` units. -/
theorem abs_ln_le {m : Nat} {e : Int} (h : Binary64.IsParts m e) : |ln m e| ≤ 2 ^ 11 * one := by
  have hmin := h.isOnGrid.min_le
  have hmax := h.le
  have hpos := h.pos
  have hlog : m.log2 < 53 := (Nat.log2_lt hpos.ne').mpr h.lt
  have htwo : |lnTwo| ≤ one := by decide +kernel
  unfold ln
  simp only
  generalize hbits : (if 1 <<< (2 * m.log2 + 1) < m * m then m.log2 + 1 else m.log2) = bits
  have hbits53 : bits ≤ 53 := by
    rw [← hbits]
    split <;> omega
  have hpower : 0 < 1 <<< bits := by
    rw [Nat.shiftLeft_eq]
    positivity
  generalize 1 <<< bits = power at hpower ⊢
  -- The argument of the series is a fraction, since the power is positive like the significand.
  have hfraction : |(m - power) * one / (m + power)| ≤ one := by
    refine abs_ediv_le (by omega) ?_
    rw [abs_mul, abs_of_pos one_pos, mul_comm one]
    refine mul_le_mul_of_nonneg_right ?_ one_pos.le
    rw [abs_le]
    constructor <;> omega
  have hscale : |e + bits| ≤ 1074 := by
    rw [abs_le]
    constructor <;> omega
  have hseries := abs_arctanh_le hfraction
  calc |(e + bits) * lnTwo + 2 * arctanh ((m - power) * one / (m + power))|
      ≤ |(e + bits) * lnTwo| + |2 * arctanh ((m - power) * one / (m + power))| := abs_add_le _ _
    _ = |e + bits| * |lnTwo| + 2 * |arctanh ((m - power) * one / (m + power))| := by
        rw [abs_mul, abs_mul, abs_two]
    _ ≤ 1074 * one + 2 * (104 * one) :=
        add_le_add (mul_le_mul hscale htwo (abs_nonneg _) (by norm_num))
          (mul_le_mul_of_nonneg_left hseries zero_le_two)
    _ ≤ 2 ^ 11 * one := by
        have hone := one_pos
        omega

end FixedPoint

namespace Binary64

open Float.Model (UnpackedFloat)
open Float.Model.UnpackedFloat

variable {x : Float}

/-! ## Logarithms -/

theorem isWithin_ofFixed {n : Int} {k : Nat} (h : |n| ≤ 2 ^ k * FixedPoint.one) :
    IsWithin k (ofFixed n) := by
  refine isWithin_ofScaled _ _ _ (by omega) ?_
  have hcast : ((n.natAbs : Int) : ℚ) ≤ ((2 ^ k * FixedPoint.one : Int) : ℚ) := by
    rw [Int.natCast_natAbs]
    exact_mod_cast h
  have hone : ((FixedPoint.one : Int) : ℚ) = 2 ^ (FixedPoint.fractionBits : ℤ) := by
    rw [FixedPoint.one_eq, Int.cast_natCast, Nat.cast_pow, Nat.cast_ofNat, zpow_natCast]
  rw [Int.cast_natCast, Int.cast_mul, Int.cast_pow, Int.cast_ofNat, hone] at hcast
  rw [zpow_natCast, zpow_neg, ← div_eq_mul_inv, div_le_iff₀ (two_zpow_pos _)]
  exact hcast

/-- A positive finite double other than zero is unpacked to its parts. -/
theorem unpack_of_pos (hx : x.isFinite = true) (hpos : 0 < toRat x) :
    ∃ m e hm, x.toModel.unpack = .finite .positive m e hm ∧ IsParts m e := by
  have hfinite : x.toModel.unpack.isFinite = true := hx
  unfold toRat at hpos
  cases hu : x.toModel.unpack with
  | notANumber => rw [hu] at hfinite; cases hfinite
  | infinity s => rw [hu] at hfinite; cases hfinite
  | zero s => rw [hu, ratOf_zero] at hpos; exact absurd hpos (lt_irrefl 0)
  | finite s m e hm =>
      have hparts := isParts_of_unpack hu
      cases s with
      | positive => exact ⟨m, e, hm, rfl, hparts⟩
      | negative =>
          rw [hu, ratOf_finite_negative] at hpos
          linarith [hparts.value_pos]

/-- Natural and decimal logarithms of positive finite doubles are less than `2 ^ 11`. -/
theorem isWithin_ln (hx : x.isFinite = true) (hpos : 0 < toRat x) : IsWithin 11 (ln x) := by
  obtain ⟨m, e, hm, hu, hparts⟩ := unpack_of_pos hx hpos
  rw [ln, hu]
  exact isWithin_ofFixed (FixedPoint.abs_ln_le hparts)

theorem isWithin_log10 (hx : x.isFinite = true) (hpos : 0 < toRat x) : IsWithin 11 (log10 x) := by
  obtain ⟨m, e, hm, hu, hparts⟩ := unpack_of_pos hx hpos
  have hten : FixedPoint.one ≤ FixedPoint.lnTen := by decide +kernel
  have hone := FixedPoint.one_pos
  rw [log10, hu]
  refine isWithin_ofFixed (k := 11) (FixedPoint.abs_ediv_le (hone.trans_le hten) ?_)
  rw [abs_mul, abs_of_pos hone]
  exact mul_le_mul (FixedPoint.abs_ln_le hparts) hten hone.le (mul_pos (by norm_num) hone).le

/-! ## Exponentials -/

/-- The exponential of a finite double overflows or is rounded from a nonnegative number. -/
theorem exp_cases (hx : x.isFinite = true) :
    exp x = infinity ∨ ∃ m e, exp x = ofScaled .positive m e := by
  have hfinite : x.toModel.unpack.isFinite = true := hx
  have hone : 1.0 = ofScaled .positive 1 0 := by decide +kernel
  have hzero : 0.0 = ofScaled .positive 0 0 := by decide +kernel
  unfold exp
  cases hu : x.toModel.unpack with
  | notANumber => rw [hu] at hfinite; cases hfinite
  | infinity s => rw [hu] at hfinite; cases hfinite
  | zero s => exact .inr ⟨1, 0, hone⟩
  | finite s m e hm =>
      simp only
      split
      · exact .inl rfl
      · split
        · exact .inr ⟨0, 0, hzero⟩
        · exact .inr ⟨_, _, rfl⟩

theorem exp_nonneg (hx : x.isFinite = true) : (exp x).isNaN = false ∧ 0 ≤ toRat (exp x) := by
  rcases exp_cases hx with hsame | ⟨m, e, hsame⟩
  · rw [hsame, toRat_infinity]
    exact ⟨rfl, beyond_pos.le⟩
  · have hnonneg : 0 ≤ rounded ((m : ℚ) * 2 ^ e) := rounded_nonneg (by positivity)
    rw [hsame, toRat_ofScaled, Sign.apply, Int.cast_natCast, clamped_of_nonneg hnonneg]
    exact ⟨isNaN_ofScaled _ m e, le_min hnonneg beyond_pos.le⟩

/-! ## Nearest integers -/

theorem isFinite_nearestInteger (hx : x.isFinite = true) : (nearestInteger x).isFinite = true := by
  unfold nearestInteger
  cases hu : x.toModel.unpack with
  | finite s m e hm =>
      simp only
      split
      · exact hx
      · have hlt := (isParts_of_unpack hu).lt
        have hunit : 0 < 1 <<< (-e).toNat := by
          rw [Nat.shiftLeft_eq]
          positivity
        generalize 1 <<< (-e).toNat = unit at hunit ⊢
        have hle : (2 * m + unit) / (2 * unit) ≤ 2 ^ 53 := by
          refine Nat.div_le_of_le_mul ?_
          omega
        refine (isWithin_ofScaled s _ 0 (k := 53) (by norm_num) ?_).isFinite (by norm_num)
        rw [zpow_zero, mul_one]
        exact_mod_cast hle
  | _ => exact hx

end Binary64

end Quantities
