import Mathlib
import Quantities.Json.Tree
import Quantities.Binary64.Basic

/-!
# Signs of doubles

A finite double is its magnitude with its sign in front.
-/

namespace Quantities

namespace Binary64

open Float.Model (UnpackedFloat Format)
open Float.Model.UnpackedFloat

variable {x : Float}

def withSign (sign : Sign) (bits : BitVec Format.binary64.numBits) : BitVec Format.binary64.numBits :=
  packComponents .binary64 sign (unpackExponent bits) (unpackMantissa bits)

theorem withSign_unpackSign (bits : BitVec Format.binary64.numBits) :
    withSign (.ofBitVec (unpackSign bits)) bits = bits :=
  packComponents_unpackSign_unpackExponent_unpackMantissa bits

def resigned (sign : Sign) : UnpackedFloat → UnpackedFloat
  | .notANumber => .notANumber
  | .infinity _ => .infinity sign
  | .zero _ => .zero sign
  | .finite _ m e h => .finite sign m e h

theorem abs_eq_resigned (u : UnpackedFloat) : u.abs = resigned .positive u := by
  cases u <;> rfl

theorem neg_resigned_positive (u : UnpackedFloat) :
    (resigned .positive u).neg = resigned .negative u := by
  cases u <;> rfl

theorem isFinite_resigned (sign : Sign) (u : UnpackedFloat) :
    (resigned sign u).isFinite = u.isFinite := by
  cases u <;> rfl

theorem unpack_withSign (sign : Sign) (bits : BitVec Format.binary64.numBits) :
    unpack .binary64 (withSign sign bits) = resigned sign (unpack .binary64 bits) := by
  unfold unpack
  simp only [withSign, unpackMantissa_packComponents, unpackExponent_packComponents,
    unpackSign_packComponents, Sign.ofBitVec_toBitVec]
  split
  · split <;> rfl
  · split
    · split <;> rfl
    · rfl

theorem unpackExponent_ne_of_isFinite (h : x.isFinite = true) :
    @unpackExponent .binary64 x.toBits.toBitVec ≠ -1#_ := by
  intro hexponent
  have hfinite : (unpack .binary64 x.toBits.toBitVec).isFinite = true := h
  unfold unpack at hfinite
  simp only [hexponent, if_true] at hfinite
  split at hfinite <;> simp [UnpackedFloat.isFinite] at hfinite

/-- A finite double is unpacked and packed again under either sign. -/
theorem pack_resigned_unpack (h : x.isFinite = true) (sign : Sign) :
    (resigned sign (unpack .binary64 x.toBits.toBitVec)).pack .binary64 =
      withSign sign x.toBits.toBitVec := by
  rw [← unpack_withSign]
  refine pack_unpack_of_valid ⟨fun hexponent _ => absurd ?_ (unpackExponent_ne_of_isFinite h)⟩
  simpa [withSign] using hexponent

theorem toBitVec_abs (h : x.isFinite = true) :
    x.abs.toBits.toBitVec = withSign .positive x.toBits.toBitVec := by
  have hpack : x.abs.toBits.toBitVec =
      ((unpack .binary64 x.toBits.toBitVec).abs).pack .binary64 := rfl
  rw [hpack, abs_eq_resigned, pack_resigned_unpack h]

theorem isFinite_abs (h : x.isFinite = true) : x.abs.isFinite = true := by
  have hunpack : x.abs.isFinite = (unpack .binary64 x.abs.toBits.toBitVec).isFinite := rfl
  rw [hunpack, toBitVec_abs h, unpack_withSign, isFinite_resigned]
  exact h

theorem toBitVec_neg_abs (h : x.isFinite = true) :
    (-x.abs).toBits.toBitVec = withSign .negative x.toBits.toBitVec := by
  have hpack : (-x.abs).toBits.toBitVec =
      ((unpack .binary64 x.abs.toBits.toBitVec).neg).pack .binary64 := rfl
  rw [hpack, toBitVec_abs h, unpack_withSign, neg_resigned_positive, pack_resigned_unpack h]

theorem isNegative_iff : isNegative x = true ↔
    Sign.ofBitVec (@unpackSign .binary64 x.toBits.toBitVec) = .negative := by
  have hlt : x.toBits.toBitVec.toNat < 2 ^ 64 := x.toBits.toBitVec.isLt
  have hsign : (@unpackSign .binary64 x.toBits.toBitVec).toNat =
      x.toBits.toBitVec.toNat / 2 ^ 63 := by
    rw [unpackSign_def, BitVec.extractLsb'_toNat, Nat.shiftRight_eq_div_pow]
    exact Nat.mod_eq_of_lt (Nat.div_lt_of_lt_mul hlt)
  have hnonneg : @unpackSign .binary64 x.toBits.toBitVec = 0#1 ↔
      x.toBits.toBitVec.toNat < 2 ^ 63 := by
    rw [← BitVec.toNat_inj, hsign, BitVec.toNat_zero]
    omega
  have hbits : x.toBits.toNat = x.toBits.toBitVec.toNat := rfl
  unfold isNegative signBit Sign.ofBitVec
  rw [decide_eq_true_iff, hbits]
  split
  · next hzero =>
    have hlow := hnonneg.mp hzero
    exact ⟨fun hhigh => by omega, fun hsame => by cases hsame⟩
  · next hone =>
    have hhigh : ¬x.toBits.toBitVec.toNat < 2 ^ 63 := fun hlow => hone (hnonneg.mpr hlow)
    exact ⟨fun _ => rfl, fun _ => by omega⟩

/-- A finite double is its magnitude with its sign. -/
theorem signed_isNegative_abs (h : x.isFinite = true) :
    JsonTree.signed (isNegative x) x.abs = x := by
  rw [← Float.toBits_inj, ← UInt64.toBitVec_inj]
  conv_rhs => rw [← withSign_unpackSign x.toBits.toBitVec]
  by_cases hneg : isNegative x = true
  · rw [JsonTree.signed, if_pos hneg, toBitVec_neg_abs h, isNegative_iff.mp hneg]
  · rw [JsonTree.signed, if_neg hneg, toBitVec_abs h]
    cases hsign : Sign.ofBitVec (@unpackSign .binary64 x.toBits.toBitVec) with
    | positive => rfl
    | negative => exact absurd (isNegative_iff.mpr hsign) hneg

end Binary64

end Quantities
