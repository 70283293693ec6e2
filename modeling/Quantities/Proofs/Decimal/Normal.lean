import Mathlib
import Quantities.Decimal.Basic

/-!
# Normal decimals

A number has one decimal without trailing zeros.  Dropping trailing zeros keeps the number, so it finds
that decimal from every other one.
-/

namespace Quantities

/-- A power with a nonnegative exponent, as a natural number and as a rational one. -/
theorem cast_pow_toNat (base : Nat) {exponent : Int} (h : 0 ≤ exponent) :
    ((base ^ exponent.toNat : Nat) : ℚ) = (base : ℚ) ^ exponent := by
  rw [Nat.cast_pow, ← zpow_natCast, Int.toNat_of_nonneg h]

namespace Decimal

variable {d : Decimal}

def value (d : Decimal) : ℚ :=
  d.digits * 10 ^ d.exponent

/-- Has no trailing zeros, and the exponent zero if it is zero. -/
def IsNormal (d : Decimal) : Prop :=
  d = ⟨0, 0⟩ ∨ d.digits % 10 ≠ 0

theorem isNormal_zero : IsNormal ⟨0, 0⟩ :=
  .inl rfl

theorem value_dropZeros (fuel : Nat) (d : Decimal) : (d.dropZeros fuel).value = d.value := by
  induction fuel generalizing d with
  | zero => rfl
  | succ fuel ih =>
      unfold dropZeros
      split
      · next hzero =>
        have hdigits : 10 * (d.digits / 10) = d.digits := by omega
        have hcast : (10 : ℚ) * (d.digits / 10 : Nat) = d.digits := by exact_mod_cast hdigits
        rw [ih, value, value, zpow_add_one₀ (by norm_num), ← hcast]
        ring
      · rfl

/-- A number with at most `fuel + 1` binary digits has at most `fuel` trailing zeros. -/
theorem dropZeros_mod_ne_zero {fuel : Nat} (hpos : d.digits ≠ 0) (hfuel : d.digits < 2 ^ (fuel + 1)) :
    (d.dropZeros fuel).digits % 10 ≠ 0 := by
  induction fuel generalizing d with
  | zero =>
      have hone : d.digits = 1 := by omega
      simp [dropZeros, hone]
  | succ fuel ih =>
      unfold dropZeros
      split
      · next hzero =>
        have hpow : 2 ^ (fuel + 1 + 1) = 2 * 2 ^ (fuel + 1) := by ring
        exact ih (d := ⟨d.digits / 10, d.exponent + 1⟩) (by simp only; omega) (by simp only; omega)
      · next hlast => exact hlast

theorem value_normalized (d : Decimal) : d.normalized.value = d.value := by
  unfold normalized
  split
  · next hzero => simp [value, hzero]
  · exact value_dropZeros _ _

theorem isNormal_normalized (d : Decimal) : d.normalized.IsNormal := by
  unfold normalized
  split
  · exact isNormal_zero
  · next hpos => exact .inr (dropZeros_mod_ne_zero hpos Nat.lt_log2_self)

/-- The digits of a number on the finer of two power-of-ten grids. -/
theorem digits_eq_of_value_eq {e : Decimal} (hle : d.exponent ≤ e.exponent) (h : d.value = e.value) :
    d.digits = e.digits * 10 ^ (e.exponent - d.exponent).toNat := by
  have hsplit : (10 : ℚ) ^ e.exponent =
      10 ^ (e.exponent - d.exponent).toNat * 10 ^ d.exponent := by
    rw [← zpow_natCast, ← zpow_add₀ (by norm_num)]
    congr 1
    omega
  rw [value, value, hsplit, ← mul_assoc] at h
  exact_mod_cast mul_right_cancel₀ (zpow_ne_zero d.exponent (by norm_num : (10 : ℚ) ≠ 0)) h

/-- On a strictly finer grid the digits are a multiple of ten. -/
theorem IsNormal.exponent_le {e : Decimal} (hd : d.IsNormal) (he : e.IsNormal)
    (h : d.value = e.value) : e.exponent ≤ d.exponent := by
  by_contra hlt
  have heq := digits_eq_of_value_eq (by omega) h
  obtain ⟨k, hk⟩ : ∃ k, (e.exponent - d.exponent).toNat = k + 1 :=
    Nat.exists_eq_succ_of_ne_zero (by omega)
  rw [hk, pow_succ] at heq
  rcases hd with rfl | hd
  · rcases he with rfl | he
    · simp at hlt
    · have hpos : 0 < e.digits * (10 ^ k * 10) := Nat.mul_pos (by omega) (by positivity)
      simp only at heq
      omega
  · rw [heq, ← mul_assoc] at hd
    omega

theorem IsNormal.eq_of_value_eq {e : Decimal} (hd : d.IsNormal) (he : e.IsNormal)
    (h : d.value = e.value) : d = e := by
  have hexponent : d.exponent = e.exponent :=
    le_antisymm (he.exponent_le hd h.symm) (hd.exponent_le he h)
  have hdigits := digits_eq_of_value_eq (le_of_eq hexponent) h
  rw [hexponent, sub_self, Int.toNat_zero, pow_zero, mul_one] at hdigits
  cases d
  cases e
  simp_all

theorem IsNormal.normalized_eq_of_value_eq {e : Decimal} (hd : d.IsNormal) (h : e.value = d.value) :
    e.normalized = d :=
  (isNormal_normalized e).eq_of_value_eq hd ((value_normalized e).trans h)

theorem IsNormal.normalized_eq (hd : d.IsNormal) : d.normalized = d :=
  hd.normalized_eq_of_value_eq rfl

/-- Trailing zeros do not change what is read. -/
theorem toFloat_normalized (d : Decimal) : d.normalized.toFloat = d.toFloat := by
  unfold toFloat
  rw [(isNormal_normalized d).normalized_eq]

end Decimal

end Quantities
