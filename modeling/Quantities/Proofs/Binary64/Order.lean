import Mathlib
import Quantities.Proofs.Binary64.Packing
import Quantities.Proofs.Binary64.Rounding

/-!
# Numbers of doubles and their order

Every double other than NaN stands for a number, if the infinities are taken to lie just beyond the
finite doubles.  Comparisons of doubles are comparisons of these numbers: two doubles in the form that
unpacking gives them are compared first by exponent and then by significand.
-/

namespace Quantities

namespace Binary64

open Float.Model (UnpackedFloat Format totalExponent)
open Float.Model.UnpackedFloat

/-! ## Numbers -/

def beyond : ℚ :=
  2 ^ (1024 : ℤ)

theorem beyond_pos : 0 < beyond :=
  two_zpow_pos 1024

/-- The number of an unpacked double.  The infinities are taken to lie just beyond the finite doubles, and
NaN at zero. -/
def ratOf : UnpackedFloat → ℚ
  | .notANumber => 0
  | .infinity s => s.apply 1 * beyond
  | .zero _ => 0
  | .finite s m e _ => s.apply m * 2 ^ e

def toRat (x : Float) : ℚ :=
  ratOf x.toModel.unpack

theorem neg_apply (s : Sign) (n : ℤ) : (-s).apply n = -s.apply n := by
  cases s with
  | positive => rfl
  | negative => exact (neg_neg n).symm

theorem abs_apply_natCast (s : Sign) (m : Nat) : |((s.apply m : ℤ) : ℚ)| = m := by
  cases s <;> simp [Sign.apply]

theorem abs_ratOf_infinity (s : Sign) : |ratOf (.infinity s)| = beyond := by
  have habs : |((s.apply 1 : ℤ) : ℚ)| = 1 := by exact_mod_cast abs_apply_natCast s 1
  rw [ratOf, abs_mul, habs, one_mul, abs_of_pos beyond_pos]

theorem ratOf_neg (u : UnpackedFloat) : ratOf u.neg = -ratOf u := by
  cases u with
  | notANumber => exact neg_zero.symm
  | zero s => exact neg_zero.symm
  | infinity s => rw [UnpackedFloat.neg, ratOf, ratOf, neg_apply, Int.cast_neg, neg_mul]
  | finite s m e hm => rw [UnpackedFloat.neg, ratOf, ratOf, neg_apply, Int.cast_neg, neg_mul]

theorem ratOf_abs (u : UnpackedFloat) : ratOf u.abs = |ratOf u| := by
  cases u with
  | notANumber => exact abs_zero.symm
  | zero s => exact abs_zero.symm
  | infinity s =>
      rw [abs_ratOf_infinity, UnpackedFloat.abs, ratOf, Sign.apply, Int.cast_one, one_mul]
  | finite s m e hm =>
      rw [ratOf, abs_mul, abs_apply_natCast, abs_of_pos (two_zpow_pos _)]
      simp [UnpackedFloat.abs, ratOf, Sign.apply]

theorem IsCanonical.neg {u : UnpackedFloat} (h : IsCanonical u) : IsCanonical u.neg := by
  cases u <;> exact h

theorem IsCanonical.abs {u : UnpackedFloat} (h : IsCanonical u) : IsCanonical u.abs := by
  cases u <;> exact h

theorem unpack_neg (x : Float) : (-x).toModel.unpack = x.toModel.unpack.neg :=
  unpack_pack (isCanonical_unpack x).neg

theorem unpack_abs (x : Float) : x.abs.toModel.unpack = x.toModel.unpack.abs :=
  unpack_pack (isCanonical_unpack x).abs

theorem toRat_neg (x : Float) : toRat (-x) = -toRat x := by
  rw [toRat, unpack_neg, ratOf_neg, toRat]

theorem toRat_abs (x : Float) : toRat x.abs = |toRat x| := by
  rw [toRat, unpack_abs, ratOf_abs, toRat]

theorem isNaN_neg (x : Float) : (-x).isNaN = x.isNaN := by
  show (-x).toModel.unpack.isNaN = x.toModel.unpack.isNaN
  rw [unpack_neg]
  cases x.toModel.unpack <;> rfl

theorem isNaN_abs (x : Float) : x.abs.isNaN = x.isNaN := by
  show x.abs.toModel.unpack.isNaN = x.toModel.unpack.isNaN
  rw [unpack_abs]
  cases x.toModel.unpack <;> rfl

@[simp] theorem toRat_zero : toRat 0.0 = 0 := by
  have hunpack : (0.0 : Float).toModel.unpack = .zero .positive := rfl
  rw [toRat, hunpack, ratOf]

@[simp] theorem toRat_infinity : toRat infinity = beyond := by
  have hunpack : infinity.toModel.unpack = .infinity .positive := rfl
  rw [toRat, hunpack, ratOf, Sign.apply, Int.cast_one, one_mul]

theorem isNaN_of_isFinite {x : Float} (h : x.isFinite = true) : x.isNaN = false := by
  have hfinite : x.toModel.unpack.isFinite = true := h
  show x.toModel.unpack.isNaN = false
  cases hu : x.toModel.unpack with
  | notANumber => rw [hu] at hfinite; cases hfinite
  | _ => rfl

theorem IsParts.value_pos {m : Nat} {e : Int} (h : IsParts m e) : (0 : ℚ) < m * 2 ^ e :=
  scaled_pos h.pos e

theorem IsParts.value_lt {m : Nat} {e : Int} (h : IsParts m e) : (m : ℚ) * 2 ^ e < 2 ^ (53 + e) := by
  have hm : (m : ℚ) < 2 ^ (53 : ℤ) := by exact_mod_cast h.lt
  rw [zpow_add₀ two_ne_zero]
  exact mul_lt_mul_of_pos_right hm (two_zpow_pos e)

theorem IsParts.value_lt_beyond {m : Nat} {e : Int} (h : IsParts m e) : (m : ℚ) * 2 ^ e < beyond := by
  have hmax := h.le
  exact h.value_lt.trans_le (zpow_le_zpow_right₀ one_le_two (by omega))

theorem abs_ratOf_lt {u : UnpackedFloat} (hu : IsCanonical u) (h : u.isFinite = true) :
    |ratOf u| < beyond := by
  cases u with
  | notANumber => cases h
  | infinity s => cases h
  | zero s =>
      rw [ratOf, abs_zero]
      exact beyond_pos
  | finite s m e hm =>
      rw [ratOf, abs_mul, abs_apply_natCast, abs_of_pos (two_zpow_pos e)]
      exact IsParts.value_lt_beyond hu

theorem abs_toRat_le (x : Float) : |toRat x| ≤ beyond := by
  have hcanonical := isCanonical_unpack x
  unfold toRat
  cases hu : x.toModel.unpack with
  | notANumber =>
      rw [ratOf, abs_zero]
      exact beyond_pos.le
  | infinity s => exact (abs_ratOf_infinity s).le
  | _ =>
      rw [hu] at hcanonical
      exact (abs_ratOf_lt hcanonical rfl).le

theorem isFinite_iff {x : Float} (hx : x.isNaN = false) :
    x.isFinite = true ↔ |toRat x| < beyond := by
  have hnan : x.toModel.unpack.isNaN = false := hx
  refine ⟨fun hfinite => abs_ratOf_lt (isCanonical_unpack x) hfinite, fun hlt => ?_⟩
  show x.toModel.unpack.isFinite = true
  unfold toRat at hlt
  cases hu : x.toModel.unpack with
  | notANumber => rw [hu] at hnan; cases hnan
  | infinity s =>
      rw [hu, abs_ratOf_infinity] at hlt
      exact absurd hlt (lt_irrefl _)
  | _ => rfl

/-- A finite double has at most 53 digits on a grid that is not too fine. -/
theorem exists_parts_of_isFinite {x : Float} (h : x.isFinite = true) :
    ∃ m e : ℤ, |m| < 2 ^ 53 ∧ -1074 ≤ e ∧ toRat x = m * 2 ^ e := by
  have hfinite : x.toModel.unpack.isFinite = true := h
  have hcanonical := isCanonical_unpack x
  unfold toRat
  cases hu : x.toModel.unpack with
  | notANumber => rw [hu] at hfinite; cases hfinite
  | infinity s => rw [hu] at hfinite; cases hfinite
  | zero s => exact ⟨0, 0, by norm_num, by norm_num, by simp [ratOf]⟩
  | finite s m e hm =>
      rw [hu] at hcanonical
      have hparts : IsParts m e := hcanonical
      refine ⟨s.apply m, e, ?_, hparts.isOnGrid.min_le, rfl⟩
      have hm53 := hparts.lt
      cases s <;> simp only [Sign.apply, abs_neg, Nat.abs_cast] <;> omega

theorem rounded_toRat {x : Float} (h : x.isFinite = true) : rounded (toRat x) = toRat x := by
  obtain ⟨m, e, hm, he, hx⟩ := exists_parts_of_isFinite h
  rw [hx, rounded_eq_self hm he]

/-- Finite doubles are whole multiples of the smallest one. -/
theorem exists_toRat_eq {x : Float} (h : x.isFinite = true) :
    ∃ k : ℤ, toRat x = k * 2 ^ (-1074 : ℤ) := by
  obtain ⟨m, e, -, he, hx⟩ := exists_parts_of_isFinite h
  obtain ⟨shift, hshift⟩ := Int.le.dest he
  refine ⟨m * 2 ^ shift, ?_⟩
  rw [hx, ← hshift, zpow_add₀ two_ne_zero, zpow_natCast, Int.cast_mul, Int.cast_pow, Int.cast_ofNat,
    mul_assoc, mul_comm (2 ^ shift)]

/-! ## Order -/

theorem IsParts.lt_of_exponent_lt {m n : Nat} {e f : Int} (hm : IsParts m e) (hn : IsParts n f)
    (h : e < f) : (m : ℚ) * 2 ^ e < n * 2 ^ f := by
  have hmin := hm.isOnGrid.min_le
  have hnormal : (2 : ℚ) ^ (52 : ℤ) ≤ n := by exact_mod_cast hn.isOnGrid.normal (by omega)
  calc (m : ℚ) * 2 ^ e
      < 2 ^ (53 + e) := hm.value_lt
    _ ≤ 2 ^ (52 + f) := zpow_le_zpow_right₀ one_le_two (by omega)
    _ = 2 ^ (52 : ℤ) * 2 ^ f := zpow_add₀ two_ne_zero _ _
    _ ≤ n * 2 ^ f := mul_le_mul_of_nonneg_right hnormal (two_zpow_pos f).le

/--
Whatever grows with the exponents of parts, and with the significands of one exponent, compares parts as
exponents and then significands are compared.
-/
theorem IsParts.compares_of_grows {α : Type} [LinearOrder α] {measure : Nat → Int → α}
    (hexponents : ∀ {m n : Nat} {e f : Int}, IsParts m e → IsParts n f → e < f →
      measure m e < measure n f)
    (hsignificands : ∀ {m n : Nat} {e : Int}, m < n → measure m e < measure n e)
    {m n : Nat} {e f : Int} (hm : IsParts m e) (hn : IsParts n f) :
    ((compare e f).then (compare m n)).Compares (measure m e) (measure n f) := by
  rcases lt_trichotomy e f with hlt | rfl | hgt
  · rw [compare_lt_iff_lt.mpr hlt]
    exact hexponents hm hn hlt
  · rw [compare_eq_iff_eq.mpr rfl]
    show (compare m n).Compares _ _
    rcases lt_trichotomy m n with hlt | rfl | hgt
    · rw [compare_lt_iff_lt.mpr hlt]
      exact hsignificands hlt
    · rw [compare_eq_iff_eq.mpr rfl]
      exact rfl
    · rw [compare_gt_iff_gt.mpr hgt]
      exact hsignificands hgt
  · rw [compare_gt_iff_gt.mpr hgt]
    exact hexponents hn hm hgt

theorem IsParts.compares {m n : Nat} {e f : Int} (hm : IsParts m e) (hn : IsParts n f) :
    ((compare e f).then (compare m n)).Compares ((m : ℚ) * 2 ^ e) (n * 2 ^ f) := by
  have hsignificands : ∀ {m n : Nat} {e : Int}, m < n → (m : ℚ) * 2 ^ e < n * 2 ^ e := fun hlt =>
    mul_lt_mul_of_pos_right (by exact_mod_cast hlt) (two_zpow_pos _)
  exact compares_of_grows lt_of_exponent_lt hsignificands hm hn

theorem compares_neg {ordering : Ordering} {p q : ℚ} (h : ordering.Compares p q) :
    ordering.swap.Compares (-p) (-q) := by
  cases ordering with
  | lt => exact neg_lt_neg h
  | eq => exact congrArg Neg.neg h
  | gt => exact neg_lt_neg h

@[simp] theorem ratOf_infinity_positive : ratOf (.infinity .positive) = beyond := by
  simp [ratOf, Sign.apply]

@[simp] theorem ratOf_infinity_negative : ratOf (.infinity .negative) = -beyond := by
  simp [ratOf, Sign.apply]

@[simp] theorem ratOf_zero (s : Sign) : ratOf (.zero s) = 0 :=
  rfl

@[simp] theorem ratOf_finite_positive {m : Nat} (hm : 0 < m) (e : Int) :
    ratOf (.finite .positive m e hm) = m * 2 ^ e := by
  simp [ratOf, Sign.apply]

@[simp] theorem ratOf_finite_negative {m : Nat} (hm : 0 < m) (e : Int) :
    ratOf (.finite .negative m e hm) = -(m * 2 ^ e) := by
  simp [ratOf, Sign.apply]

/-- Comparison of unpacked doubles is comparison of their numbers. -/
theorem exists_compare_eq {u v : UnpackedFloat} (hu : IsCanonical u) (hv : IsCanonical v)
    (hunan : u.isNaN = false) (hvnan : v.isNaN = false) :
    ∃ ordering, u.compare v = some ordering ∧ ordering.Compares (ratOf u) (ratOf v) := by
  have hbeyond := beyond_pos
  cases u with
  | notANumber => cases hunan
  | infinity s =>
      cases v with
      | notANumber => cases hvnan
      | infinity t =>
          cases s <;> cases t
          · exact ⟨.eq, rfl, rfl⟩
          · exact ⟨.lt, rfl, by simpa using hbeyond⟩
          · exact ⟨.gt, rfl, by simpa using hbeyond⟩
          · exact ⟨.eq, rfl, rfl⟩
      | zero t => cases s <;> refine ⟨_, rfl, ?_⟩ <;> simpa using hbeyond
      | finite t n f hn =>
          have hpos := IsParts.value_pos hv
          have hlt := IsParts.value_lt_beyond hv
          cases s <;> cases t <;> refine ⟨_, rfl, ?_⟩ <;>
            simp only [ratOf_infinity_positive, ratOf_infinity_negative, ratOf_finite_positive,
              ratOf_finite_negative, Ordering.Compares] <;> linarith
  | zero s =>
      cases v with
      | notANumber => cases hvnan
      | infinity t => cases t <;> refine ⟨_, rfl, ?_⟩ <;> simpa using hbeyond
      | zero t => exact ⟨_, rfl, rfl⟩
      | finite t n f hn =>
          have hpos := IsParts.value_pos hv
          cases t <;> refine ⟨_, rfl, ?_⟩ <;> simpa using hpos
  | finite s m e hm =>
      have hpos := IsParts.value_pos hu
      have hlt := IsParts.value_lt_beyond hu
      cases v with
      | notANumber => cases hvnan
      | infinity t =>
          cases s <;> cases t <;> refine ⟨_, rfl, ?_⟩ <;>
            simp only [ratOf_infinity_positive, ratOf_infinity_negative, ratOf_finite_positive,
              ratOf_finite_negative, Ordering.Compares] <;> linarith
      | zero t => cases s <;> refine ⟨_, rfl, ?_⟩ <;> simpa using hpos
      | finite t n f hn =>
          have hpos' := IsParts.value_pos hv
          have hcompares := IsParts.compares hu hv
          cases s <;> cases t <;> refine ⟨_, rfl, ?_⟩ <;>
            simp only [ratOf_finite_positive, ratOf_finite_negative]
          · exact compares_neg hcompares
          · exact (neg_neg_of_pos hpos).trans hpos'
          · exact (neg_neg_of_pos hpos').trans hpos
          · exact hcompares

section Comparison

variable {x y : Float}

theorem isNaN_zero : (0.0 : Float).isNaN = false :=
  rfl

/-- NaN is not comparable. -/
theorem isNaN_of_le (h : x ≤ y) : x.isNaN = false ∧ y.isNaN = false := by
  have hle : decide (x.toModel.unpack.le y.toModel.unpack = true) = true := h
  rw [decide_eq_true_eq, Float.Model.UnpackedFloat.le] at hle
  show x.toModel.unpack.isNaN = false ∧ y.toModel.unpack.isNaN = false
  cases hx : x.toModel.unpack with
  | notANumber => rw [hx] at hle; cases hle
  | _ =>
      cases hy : y.toModel.unpack with
      | notANumber => rw [hx, hy] at hle; cases hle
      | _ => exact ⟨rfl, rfl⟩

theorem lt_iff (hx : x.isNaN = false) (hy : y.isNaN = false) : x < y ↔ toRat x < toRat y := by
  obtain ⟨ordering, hcompare, hcompares⟩ :=
    exists_compare_eq (isCanonical_unpack x) (isCanonical_unpack y) hx hy
  show decide (x.toModel.unpack.lt y.toModel.unpack = true) = true ↔ _
  rw [toRat, toRat, ← hcompares.eq_lt, UnpackedFloat.lt, hcompare]
  simp

theorem le_iff (hx : x.isNaN = false) (hy : y.isNaN = false) : x ≤ y ↔ toRat x ≤ toRat y := by
  obtain ⟨ordering, hcompare, hcompares⟩ :=
    exists_compare_eq (isCanonical_unpack x) (isCanonical_unpack y) hx hy
  show decide (x.toModel.unpack.le y.toModel.unpack = true) = true ↔ _
  rw [toRat, toRat, ← hcompares.ne_gt, UnpackedFloat.le, hcompare]
  simp [Ordering.isLE_iff_ne_gt]

theorem beq_iff (hx : x.isNaN = false) (hy : y.isNaN = false) :
    (x == y) = true ↔ toRat x = toRat y := by
  obtain ⟨ordering, hcompare, hcompares⟩ :=
    exists_compare_eq (isCanonical_unpack x) (isCanonical_unpack y) hx hy
  show (x.toModel.unpack.compare y.toModel.unpack == some .eq) = true ↔ _
  rw [toRat, toRat, ← hcompares.eq_eq, hcompare]
  simp

theorem toRat_larger (hx : x.isNaN = false) (hy : y.isNaN = false) :
    toRat (larger x y) = max (toRat x) (toRat y) := by
  simp only [larger, hx, Bool.or_false, decide_eq_true_eq]
  split
  · next hlt => exact (max_eq_right ((lt_iff hx hy).mp hlt).le).symm
  · next hge =>
    rw [lt_iff hx hy, not_lt] at hge
    exact (max_eq_left hge).symm

theorem toRat_smaller (hx : x.isNaN = false) (hy : y.isNaN = false) :
    toRat (smaller x y) = min (toRat x) (toRat y) := by
  simp only [smaller, hx, Bool.or_false, decide_eq_true_eq]
  split
  · next hlt => exact (min_eq_right ((lt_iff hy hx).mp hlt).le).symm
  · next hge =>
    rw [lt_iff hy hx, not_lt] at hge
    exact (min_eq_left hge).symm

theorem larger_eq_or (x y : Float) : larger x y = x ∨ larger x y = y := by
  unfold larger
  split
  · exact .inr rfl
  · exact .inl rfl

theorem smaller_eq_or (x y : Float) : smaller x y = x ∨ smaller x y = y := by
  unfold smaller
  split
  · exact .inr rfl
  · exact .inl rfl

end Comparison

end Binary64

end Quantities
