import Mathlib
import Quantities.Binary64.Basic
import Quantities.Proofs.Binary64.Parts

/-!
# Packing doubles

The unpacked forms that doubles have are packed and unpacked again without loss.
-/

namespace Quantities

namespace Binary64

open Float.Model (UnpackedFloat Format totalExponent)
open Float.Model.UnpackedFloat

/-- Has the parts that a double is unpacked to. -/
def IsCanonical : UnpackedFloat → Prop
  | .finite _ m e _ => IsParts m e
  | _ => True

theorem isCanonical_unpack (x : Float) : IsCanonical x.toModel.unpack := by
  cases h : x.toModel.unpack with
  | finite s m e hm => exact isParts_of_unpack h
  | _ => trivial

/-- A positive significand and its exponent on the grid; unlike the parts of a double they may be too large
to be packed. -/
structure IsOnGrid (m : Nat) (e : Int) : Prop where
  pos : 0 < m
  lt : m < 2 ^ 53
  target_eq : Format.binary64.targetExponent (totalExponent m e) = e

theorem IsOnGrid.min_le {m : Nat} {e : Int} (h : IsOnGrid m e) : -1074 ≤ e := by
  have htarget := h.target_eq
  rw [targetExponent_eq] at htarget
  omega

theorem IsOnGrid.normal {m : Nat} {e : Int} (h : IsOnGrid m e) (he : -1074 < e) : 2 ^ 52 ≤ m := by
  have htarget := h.target_eq
  rw [targetExponent_eq, totalExponent] at htarget
  exact (Nat.le_log2 h.pos.ne').mp (by omega)

theorem IsOnGrid.isParts {m : Nat} {e : Int} (h : IsOnGrid m e) (he : e ≤ 971) : IsParts m e :=
  ⟨h.pos, h.lt, h.target_eq, he⟩

theorem IsParts.isOnGrid {m : Nat} {e : Int} (h : IsParts m e) : IsOnGrid m e :=
  ⟨h.pos, h.lt, h.target_eq⟩

/-- The exponent field of a normal double. -/
theorem IsParts.unpack_pack_normal {m : Nat} {e : Int} (h : IsParts m e) (hlow : 2 ^ 52 ≤ m)
    (s : Sign) :
    unpack .binary64 (packComponents .binary64 s (BitVec.ofNat 11 (e + 1075).toNat)
      (BitVec.ofNat 52 m)) = .finite s m e h.pos := by
  have hmin := h.isOnGrid.min_le
  have hmax := h.le
  have hhigh := h.lt
  have hfield : (BitVec.ofNat 11 (e + 1075).toNat).toNat = (e + 1075).toNat := by
    rw [BitVec.toNat_ofNat]
    omega
  have hnotInf : BitVec.ofNat 11 (e + 1075).toNat ≠ -1#11 := by
    intro hinf
    have htop : (-1#11 : BitVec 11).toNat = 2047 := rfl
    rw [hinf, htop] at hfield
    omega
  have hnotSub : BitVec.ofNat 11 (e + 1075).toNat ≠ 0#11 := by
    intro hsub
    rw [hsub, BitVec.toNat_zero] at hfield
    omega
  have hm : (1#1 ++ BitVec.ofNat 52 m).toNat = m := by
    rw [toNat_implicit, BitVec.toNat_ofNat]
    omega
  have hbias : (Format.binary64.exponentBias : Int) = 1023 := rfl
  unfold unpack
  simp only [unpackMantissa_packComponents, unpackExponent_packComponents,
    unpackSign_packComponents, Sign.ofBitVec_toBitVec]
  rw [if_neg hnotInf, if_neg hnotSub]
  simp only [hm, hfield, hbias]
  congr 1
  omega

theorem unpack_pack_subnormal {m : Nat} (hpos : 0 < m) (hhigh : m < 2 ^ 52) (s : Sign) :
    unpack .binary64 (packComponents .binary64 s 0#11 (BitVec.ofNat 52 m)) =
      .finite s m (-1074) hpos := by
  have hm : (BitVec.ofNat 52 m).toNat = m := by
    rw [BitVec.toNat_ofNat]
    omega
  have hnonzero : BitVec.ofNat 52 m ≠ 0#52 := by
    intro hzero
    rw [hzero, BitVec.toNat_zero] at hm
    omega
  have hnotInf : (0#11 : BitVec 11) ≠ -1#11 := by decide
  unfold unpack
  simp only [unpackMantissa_packComponents, unpackExponent_packComponents,
    unpackSign_packComponents, Sign.ofBitVec_toBitVec]
  rw [if_neg hnotInf, if_pos trivial, dif_neg hnonzero]
  simp only [hm]
  rfl

theorem pack_finite (s : Sign) (m : Nat) (e : Int) (hm : 0 < m) :
    (UnpackedFloat.finite s m e hm).pack .binary64 =
      if 972 ≤ e then packedInfinity .binary64 s
      else if m.log2 = 52 then
        packComponents .binary64 s (BitVec.ofNat 11 (e + 1075).toNat) (BitVec.ofNat 52 m)
      else packComponents .binary64 s 0#11 (BitVec.ofNat 52 m) := by
  have hbias : (Format.binary64.exponentBias : Int) = 1023 := rfl
  have hbits : Format.binary64.mantissaBits = 53 := rfl
  have hfield : e + 1023 + (52 : Nat) = e + 1075 := by omega
  simp only [pack, hbias, hbits, hfield]
  refine if_congr ?_ rfl (if_congr ?_ rfl rfl)
  · omega
  · omega

theorem unpack_packedInfinity (s : Sign) :
    unpack .binary64 (packedInfinity .binary64 s) = .infinity s := by
  unfold unpack packedInfinity
  simp only [unpackMantissa_packComponents, unpackExponent_packComponents,
    unpackSign_packComponents, Sign.ofBitVec_toBitVec]
  rfl

/-- What has the parts of a double is packed without loss. -/
theorem unpack_pack {u : UnpackedFloat} (h : IsCanonical u) :
    unpack .binary64 (u.pack .binary64) = u := by
  cases u with
  | notANumber => exact unpack_packedNaN
  | infinity s => exact unpack_packedInfinity s
  | zero s => exact unpack_packedZero
  | finite s m e hm =>
      have hparts : IsParts m e := h
      have hmax := hparts.le
      rw [pack_finite, if_neg (by omega)]
      by_cases hlow : 2 ^ 52 ≤ m
      · rw [if_pos ((Nat.log2_eq_iff hm.ne').mpr ⟨hlow, hparts.lt⟩)]
        exact hparts.unpack_pack_normal hlow s
      · have hmin := hparts.isOnGrid.min_le
        obtain rfl : e = -1074 := by
          by_contra hne
          exact hlow (hparts.isOnGrid.normal (by omega))
        have hlog : m.log2 < 52 := (Nat.log2_lt hm.ne').mpr (by omega)
        rw [if_neg hlog.ne]
        exact unpack_pack_subnormal hm (by omega) s

/-- A double is packed as it was unpacked. -/
theorem pack_unpack (x : Float) : x.toModel.unpack.pack .binary64 = x.toBits.toBitVec :=
  pack_unpack_of_valid x.toModel.valid

theorem eq_of_unpack_eq {x y : Float} (h : x.toModel.unpack = y.toModel.unpack) : x = y := by
  rw [← Float.toBits_inj, ← UInt64.toBitVec_inj, ← pack_unpack, ← pack_unpack, h]

end Binary64

end Quantities
