import Mathlib

/-!
# The parts of finite doubles

A finite double other than zero is unpacked to a significand and an exponent that rounding leaves alone.
-/

namespace Quantities

namespace Binary64

open Float.Model (UnpackedFloat totalExponent)
open Float.Model.UnpackedFloat

/-! ## Parts -/

/-- The significand and the exponent that a finite double other than zero is unpacked to. -/
structure IsParts (m : Nat) (e : Int) : Prop where
  pos : 0 < m
  lt : m < 2 ^ 53
  target_eq : Float.Model.Format.binary64.targetExponent (totalExponent m e) = e
  le : e ≤ 971

theorem targetExponent_eq (t : Int) :
    Float.Model.Format.binary64.targetExponent t = max (t - 53) (-1074) := rfl

theorem toNat_implicit (v : BitVec 52) : (1#1 ++ v).toNat = 2 ^ 52 + v.toNat := by
  rw [BitVec.toNat_append, ← Nat.shiftLeft_add_eq_or_of_lt v.isLt]
  rfl

/-- The parts of a normal number. -/
theorem isParts_of_normal {m : Nat} {e : Int} (hlow : 2 ^ 52 ≤ m) (hhigh : m < 2 ^ 53)
    (hmin : -1074 ≤ e) (hmax : e ≤ 971) : IsParts m e := by
  have hpos : 0 < m := by omega
  have hlog : m.log2 = 52 := (Nat.log2_eq_iff (by omega)).mpr ⟨hlow, hhigh⟩
  refine ⟨hpos, hhigh, ?_, hmax⟩
  rw [targetExponent_eq, totalExponent, hlog]
  omega

/-- The parts of a subnormal number. -/
theorem isParts_of_subnormal {m : Nat} (hpos : 0 < m) (hhigh : m < 2 ^ 52) : IsParts m (-1074) := by
  have hlog : m.log2 < 52 := (Nat.log2_lt (by omega)).mpr hhigh
  refine ⟨hpos, by omega, ?_, by omega⟩
  rw [targetExponent_eq, totalExponent]
  omega

theorem isParts_of_unpack {x : Float} {s : Sign} {m : Nat} {e : Int} {hm : 0 < m}
    (h : x.toModel.unpack = .finite s m e hm) : IsParts m e := by
  unfold Float.Model.unpack UnpackedFloat.unpack at h
  have hmantissa := (@unpackMantissa .binary64 x.toModel.toBits.toBitVec).isLt
  have hexponent := (@unpackExponent .binary64 x.toModel.toBits.toBitVec).isLt
  have hbias : (Float.Model.Format.binary64.exponentBias : Int) = 1023 := rfl
  simp only [hbias] at h
  split at h
  · split at h <;> cases h
  · next hinf =>
    split at h
    · next hzero =>
      split at h
      · cases h
      · injection h with _ hm' he
        rw [hzero] at he
        subst hm' he
        exact isParts_of_subnormal hm hmantissa
    · next hnz =>
      injection h with _ hm' he
      rw [toNat_implicit] at hm'
      generalize @unpackExponent .binary64 x.toModel.toBits.toBitVec = exponent at *
      have htop : exponent.toNat ≠ 2047 := fun htop => hinf (BitVec.eq_of_toNat_eq htop)
      have hbottom : exponent.toNat ≠ 0 := fun hbottom => hnz (BitVec.eq_of_toNat_eq hbottom)
      simp only at hexponent hmantissa he
      exact isParts_of_normal (by omega) (by omega) (by omega) (by omega)

/-! ## Rounding what needs none -/

theorem shiftRight_exact (m k : Nat) :
    (ExtendedMantissa.mk (m * 2 ^ k) false false) >>> k = ⟨m, false, false⟩ := by
  induction k generalizing m with
  | zero => simp [HShiftRight.hShiftRight, Nat.repeat]
  | succ k ih =>
      have hpow : m * 2 ^ (k + 1) = m * 2 * 2 ^ k := by ring
      have hstep : (ExtendedMantissa.mk (m * 2 * 2 ^ k) false false) >>> (k + 1) =
          ((ExtendedMantissa.mk (m * 2 * 2 ^ k) false false) >>> k).shiftRightOne := rfl
      rw [hpow, hstep, ih]
      simp [ExtendedMantissa.shiftRightOne]

theorem totalExponent_mul_two_pow {m : Nat} (hm : 0 < m) (e : Int) (k : Nat) :
    totalExponent (m * 2 ^ k) (e - k) = totalExponent m e := by
  have hlog : (m * 2 ^ k).log2 = m.log2 + k := by
    have hne : m * 2 ^ k ≠ 0 := (Nat.mul_pos hm (by positivity)).ne'
    refine (Nat.log2_eq_iff hne).mpr ⟨?_, ?_⟩
    · rw [pow_add]
      exact Nat.mul_le_mul_right _ (Nat.log2_self_le (by omega))
    · rw [show m.log2 + k + 1 = (m.log2 + 1) + k by omega, pow_add]
      exact Nat.mul_lt_mul_of_pos_right Nat.lt_log2_self (by positivity)
  rw [totalExponent, totalExponent, hlog]
  omega

theorem IsParts.shiftToTargetExponent_eq {m : Nat} {e : Int} (h : IsParts m e) (k : Nat) :
    shiftToTargetExponent .binary64 (m * 2 ^ k) (e - k) .exact = (⟨m, false, false⟩, e) := by
  have hamount : (e - (e - k)).toNat = k := by omega
  rw [shiftToTargetExponent, totalExponent_mul_two_pow h.pos, h.target_eq, shiftToExponent]
  simp only [hamount, ExtendedMantissa.ofMantissaAndAccuracy, shiftRight_exact]
  congr 1
  omega

/-- Rounding finds the parts of a number again, however far its significand was shifted. -/
theorem IsParts.roundWithAccuracy_eq {m : Nat} {e : Int} (h : IsParts m e) (s : Sign) (k : Nat) :
    roundWithAccuracy .binary64 s (m * 2 ^ k) (e - k) .exact = .finite s m e h.pos := by
  have hround : (ExtendedMantissa.mk m false false).roundedMantissa = m := rfl
  have hagain := h.shiftToTargetExponent_eq 0
  simp only [pow_zero, mul_one, Nat.cast_zero, sub_zero] at hagain
  rw [roundWithAccuracy, h.shiftToTargetExponent_eq]
  simp only [hround, hagain]
  exact dif_neg h.pos.ne'

end Binary64

end Quantities
