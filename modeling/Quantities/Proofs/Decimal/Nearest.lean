import Mathlib
import Quantities.Json.Tree
import Quantities.Proofs.Binary64.Closest
import Quantities.Proofs.Binary64.Division
import Quantities.Proofs.Decimal.Normal

/-!
# Decimals are read as the nearest double

A decimal is multiplied out, or divided by a power of ten, and rounded once.  With a sign in front it is
read as the double nearest to its number, and the readings that are not finite are those of the numbers from
half way beyond the largest double on.
-/

namespace Quantities

open Float.Model (UnpackedFloat Format)
open Float.Model.UnpackedFloat

namespace Binary64

/-! ## Positive results -/

theorem abs_roundWithAccuracy (m : Nat) (e : Int) (accuracy : Accuracy) :
    (roundWithAccuracy .binary64 .positive m e accuracy).abs =
      roundWithAccuracy .binary64 .positive m e accuracy := by
  unfold roundWithAccuracy
  dsimp only
  split <;> rfl

theorem abs_ofScientific (m : Nat) (e : Int) :
    (UnpackedFloat.ofScientific .binary64 m e).abs = UnpackedFloat.ofScientific .binary64 m e := by
  unfold UnpackedFloat.ofScientific
  split
  · rfl
  · split
    · rfl
    · split
      · rfl
      · split <;> exact abs_roundWithAccuracy _ _ _

theorem abs_unpack_packComponents (exponent : BitVec 11) (mantissa : BitVec 52) :
    (unpack .binary64 (packComponents .binary64 .positive exponent mantissa)).abs =
      unpack .binary64 (packComponents .binary64 .positive exponent mantissa) := by
  unfold unpack
  simp only [unpackMantissa_packComponents, unpackExponent_packComponents,
    unpackSign_packComponents, Sign.ofBitVec_toBitVec]
  split
  · split <;> rfl
  · split
    · split <;> rfl
    · rfl

/-- Packing keeps a positive sign. -/
theorem abs_repacked {u : UnpackedFloat} (h : u.abs = u) : (repacked u).abs = repacked u := by
  rw [← h]
  cases u with
  | notANumber =>
      have hsame : repacked .notANumber = .notANumber := unpack_packedNaN
      rw [UnpackedFloat.abs, hsame]
      rfl
  | infinity s => exact abs_unpack_packComponents _ _
  | zero s => exact abs_unpack_packComponents _ _
  | finite s m e hm =>
      rw [UnpackedFloat.abs, repacked, pack_finite]
      split
      · exact abs_unpack_packComponents _ _
      · split <;> exact abs_unpack_packComponents _ _

/-! ## Rounding -/

theorem rounds_infinity {q : ℚ} (h : beyond ≤ q) : Rounds (.infinity .positive) q := by
  have hsame : repacked (.infinity .positive) = .infinity .positive := unpack_packedInfinity _
  have hself : rounded beyond = beyond := by
    simpa [beyond] using rounded_eq_self (m := 1) (e := 1024) (by norm_num) (by norm_num)
  have hlarge : beyond ≤ rounded q := hself ▸ rounded_mono h
  refine ⟨by rw [hsame]; rfl, ?_⟩
  rw [hsame, ratOf_infinity_positive, clamped_of_beyond_le hlarge]

section Scientific

variable {m : Nat} {e : Int}

theorem rounds_scaled_up (hm : 0 < m) (he : 0 ≤ e) :
    Rounds (roundWithAccuracy .binary64 .positive (m <<< 53 * 10 ^ e.toNat) (-53) .exact)
      (m * 10 ^ e) := by
  have hten : ((10 ^ e.toNat : Nat) : ℚ) = 10 ^ e := cast_pow_toNat 10 he
  have hpos : 0 < m <<< 53 * 10 ^ e.toNat := by
    rw [Nat.shiftLeft_eq]
    positivity
  have hvalue : ((m <<< 53 * 10 ^ e.toNat : Nat) : ℚ) * 2 ^ (-53 : ℤ) = m * 10 ^ e := by
    rw [Nat.shiftLeft_eq, Nat.cast_mul, Nat.cast_mul, hten, mul_right_comm, mul_assoc (m : ℚ)]
    norm_num
  have hone : (2 : ℚ) ^ (0 : ℤ) ≤ m * 10 ^ e := by
    have hdigits : (1 : ℚ) ≤ m := by exact_mod_cast hm
    have hpower : (1 : ℚ) ≤ 10 ^ e := one_le_zpow₀ (by norm_num) he
    rw [zpow_zero]
    nlinarith
  have hgrid : -53 ≤ gridExponent ((m : ℚ) * 10 ^ e) := by
    have hlog := (Int.zpow_le_iff_le_log one_lt_two (by positivity)).mp hone
    rw [gridExponent, abs_of_pos (by positivity)]
    omega
  have hcases := roundWithAccuracy_cases (e := -53) .positive hpos (by rwa [hvalue])
  rw [hvalue] at hcases
  simpa [Sign.apply] using rounds_of_cases .positive hcases

theorem rounds_scaled_down (hm : 0 < m) (he : e < 0) (hten : 0 < 10 ^ (-e).toNat) :
    Rounds (UnpackedFloat.div .binary64 (.finite .positive m 0 hm)
      (.finite .positive (10 ^ (-e).toNat) 0 hten)) (m * 10 ^ e) := by
  have hpower : ((10 ^ (-e).toNat : Nat) : ℚ) = 10 ^ (-e) := cast_pow_toNat 10 (by omega)
  have hdivisor : ratOf (.finite .positive (10 ^ (-e).toNat) 0 hten) = 10 ^ (-e) := by
    rw [ratOf_finite_positive, zpow_zero, mul_one, hpower]
  have hrounds := rounds_div (u := .finite .positive m 0 hm) rfl
    (v := .finite .positive (10 ^ (-e).toNat) 0 hten) rfl (by rw [hdivisor]; positivity)
  rwa [hdivisor, ratOf_finite_positive, zpow_zero, mul_one, zpow_neg, div_inv_eq_mul] at hrounds

theorem beyond_le_of_large (hm : 0 < m) (he : 2 ^ 11 < e) : beyond ≤ m * 10 ^ e := by
  have hdigits : (1 : ℚ) ≤ m := by exact_mod_cast hm
  calc beyond
      ≤ 2 ^ e := zpow_le_zpow_right₀ one_le_two (by omega)
    _ ≤ 10 ^ e := zpow_le_zpow_left₀ (by omega) (by norm_num) (by norm_num)
    _ ≤ m * 10 ^ e := le_mul_of_one_le_left (by positivity) hdigits

theorem rounded_eq_zero_of_small (he : e < -(2 ^ 11 + (m.log2 : Int))) :
    rounded ((m : ℚ) * 10 ^ e) = 0 := by
  have hten : (10 : ℚ) ^ e ≤ 2 ^ e := by
    obtain ⟨n, rfl⟩ := Int.exists_eq_neg_ofNat (by omega : e ≤ 0)
    rw [zpow_neg, zpow_neg, zpow_natCast, zpow_natCast]
    exact inv_anti₀ (by positivity) (pow_le_pow_left₀ (by norm_num) (by norm_num) n)
  rw [rounded_eq_zero_iff, abs_of_nonneg (by positivity)]
  calc (m : ℚ) * 10 ^ e
      ≤ 2 ^ ((m.log2 : Int) + 1) * 2 ^ e := by
        have hlog := (natCast_lt_two_zpow_log2 m).le
        gcongr
    _ = 2 ^ ((m.log2 : Int) + 1 + e) := (zpow_add₀ two_ne_zero _ _).symm
    _ ≤ 2 ^ (-1075 : ℤ) := zpow_le_zpow_right₀ one_le_two (by omega)

/-- Digits and a power of ten are rounded once. -/
theorem rounds_ofScientific (m : Nat) (e : Int) :
    Rounds (UnpackedFloat.ofScientific .binary64 m e) (m * 10 ^ e) := by
  unfold UnpackedFloat.ofScientific
  split
  · next hzero => exact rounds_zero _ (by rw [hzero, Nat.cast_zero, zero_mul, rounded_zero])
  · next hne =>
    have hm : 0 < m := Nat.pos_of_ne_zero hne
    split
    · next hlarge => exact rounds_infinity (beyond_le_of_large hm hlarge)
    · split
      · next hsmall => exact rounds_zero _ (rounded_eq_zero_of_small hsmall)
      · split
        · next hup => exact rounds_scaled_up hm hup
        · next hdown => exact rounds_scaled_down hm (by omega) _

end Scientific

theorem isNegative_signed_abs {x : Float} (h : x.isFinite = true) (negative : Bool) :
    isNegative (JsonTree.signed negative x.abs) = negative := by
  cases negative with
  | true =>
      rw [JsonTree.signed, if_pos rfl, isNegative_iff, toBitVec_neg_abs h, withSign,
        unpackSign_packComponents, Sign.ofBitVec_toBitVec]
  | false =>
      rw [JsonTree.signed, if_neg Bool.false_ne_true, ← Bool.not_eq_true, isNegative_iff, toBitVec_abs h,
        withSign, unpackSign_packComponents, Sign.ofBitVec_toBitVec]
      exact Sign.noConfusion

end Binary64

namespace Decimal

open Binary64

theorem value_nonneg (d : Decimal) : 0 ≤ d.value := by
  unfold value
  positivity

theorem rounds_toFloat (d : Decimal) :
    d.toFloat.isNaN = false ∧ toRat d.toFloat = clamped (rounded d.value) := by
  have hrounds := rounds_ofScientific d.normalized.digits d.normalized.exponent
  have hvalue : (d.normalized.digits : ℚ) * 10 ^ d.normalized.exponent = d.value := d.value_normalized
  rw [hvalue] at hrounds
  exact ⟨hrounds.isNaN_eq, hrounds.ratOf_eq⟩

theorem abs_toFloat (d : Decimal) : d.toFloat.abs = d.toFloat := by
  apply eq_of_unpack_eq
  rw [unpack_abs]
  exact abs_repacked (abs_ofScientific _ _)

theorem isFinite_toFloat_iff (d : Decimal) : d.toFloat.isFinite = true ↔ d.value < overflowStart := by
  obtain ⟨hnan, hvalue⟩ := d.rounds_toFloat
  have hnonneg := rounded_nonneg d.value_nonneg
  rw [isFinite_iff hnan, hvalue, ← clamped_abs, abs_of_nonneg hnonneg, clamped_of_nonneg hnonneg,
    min_lt_iff, or_iff_left (lt_irrefl _), rounded_lt_beyond_iff]

/-- A decimal that stands for the magnitude of a double is read as this magnitude. -/
theorem toFloat_eq_abs {d : Decimal} {x : Float} (hx : x.isFinite = true) (h : d.value = |toRat x|) :
    d.toFloat = x.abs := by
  obtain ⟨hnan, hvalue⟩ := d.rounds_toFloat
  have hsmall : |toRat x| < beyond := (isFinite_iff (isNaN_of_isFinite hx)).mp hx
  have hself : toRat d.toFloat = |toRat x| := by
    rw [hvalue, h, rounded_abs, rounded_toRat hx, clamped_eq_self (by rwa [abs_abs])]
  have hfinite : d.toFloat.isFinite = true := by
    rw [isFinite_iff hnan, hself, abs_abs]
    exact hsmall
  have hsign : isNegative d.toFloat = false := by
    rw [← abs_toFloat]
    exact isNegative_signed_abs hfinite false
  exact eq_of_toRat_eq hfinite (isFinite_abs hx) (hsign.trans (isNegative_signed_abs hx false).symm)
    (hself.trans (toRat_abs x).symm)

/-- With a sign in front, a decimal below the start of overflow is read as the double nearest to it. -/
theorem isNearest_signed_toFloat {d : Decimal} (h : d.value < overflowStart) (negative : Bool) :
    IsNearest negative d.value (JsonTree.signed negative d.toFloat) := by
  have hfinite : d.toFloat.isFinite = true := d.isFinite_toFloat_iff.mpr h
  have hsign := isNegative_signed_abs hfinite negative
  rw [abs_toFloat] at hsign
  have hvalue : toRat d.toFloat = rounded d.value := by
    rw [d.rounds_toFloat.2, clamped_of_nonneg (rounded_nonneg d.value_nonneg),
      min_eq_left (rounded_lt_beyond_iff.mpr h).le]
  cases negative with
  | true =>
      refine isNearest_of_toRat_eq ((isFinite_neg _).trans hfinite) hsign ?_
      exact (toRat_neg _).trans ((congrArg Neg.neg hvalue).trans (rounded_neg _).symm)
  | false => exact isNearest_of_toRat_eq hfinite hsign hvalue

end Decimal

end Quantities
