import Quantities.Decimal.Shortest
import Quantities.Proofs.Decimal.Nearest

/-!
# Shortest decimals are read back

The shortest decimal of a finite double is a candidate that is read as the double, or else its exact
expansion, which is read without rounding.
-/

namespace Quantities

namespace Decimal

open Float.Model (UnpackedFloat)

variable {x : Float}

theorem value_exact (m : Nat) (e : Int) : (exact m e).value = m * 2 ^ e := by
  unfold exact
  split
  · next hexp =>
    have hpower : ((2 ^ e.toNat : Nat) : ℚ) = 2 ^ e := cast_pow_toNat 2 hexp
    rw [value, Nat.shiftLeft_eq, Nat.cast_mul, hpower, zpow_zero, mul_one]
  · next hexp =>
    obtain ⟨n, rfl⟩ := Int.exists_eq_neg_ofNat (by omega : e ≤ 0)
    have hten : (10 : ℚ) ^ n = 5 ^ n * 2 ^ n := by
      rw [← mul_pow]
      norm_num
    rw [value, neg_neg, Int.toNat_natCast, Nat.pow_eq, zpow_neg, zpow_neg, zpow_natCast,
      zpow_natCast, hten]
    push_cast
    field_simp

/-- The exact expansion of a double is read without rounding. -/
theorem toFloat_exact {s : UnpackedFloat.Sign} {m : Nat} {e : Int} {hm : 0 < m}
    (hx : x.isFinite = true) (h : x.toModel.unpack = .finite s m e hm) :
    (exact m e).toFloat = x.abs := by
  refine toFloat_eq_abs hx ?_
  rw [value_exact, ← Binary64.toRat_abs, Binary64.toRat, Binary64.unpack_abs, h, UnpackedFloat.abs,
    Binary64.ratOf_finite_positive]

theorem isNormal_shortest (tie : Tie) (x : Float) : (shortest tie x).IsNormal := by
  unfold shortest
  split
  · exact isNormal_normalized _
  · exact isNormal_zero

/-- The shortest decimal of a finite double is read as its magnitude. -/
theorem toFloat_shortest (tie : Tie) (h : x.isFinite = true) : (shortest tie x).toFloat = x.abs := by
  unfold shortest
  split
  · next s m e hm hunpack =>
    rw [toFloat_normalized]
    cases hfound : (List.find? _ _ : Option Decimal) with
    | none => exact toFloat_exact h hunpack
    | some d =>
        have hread := List.find?_some hfound
        exact of_decide_eq_true hread
  · next hzero =>
    have hfinite : x.toModel.unpack.isFinite = true := h
    have habs : x.abs = .ofModel (.pack x.toModel.unpack.abs) := rfl
    cases hunpack : x.toModel.unpack with
    | zero s =>
        rw [habs, hunpack]
        rfl
    | finite s m e hm => exact absurd hunpack (hzero s m e hm)
    | infinity s => simp [hunpack, UnpackedFloat.isFinite] at hfinite
    | notANumber => simp [hunpack, UnpackedFloat.isFinite] at hfinite

end Decimal

end Quantities
