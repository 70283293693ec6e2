import Mathlib
import Quantities.Proofs.Binary64.Elementary
import Quantities.Proofs.Binary64.TotalOrder
import Quantities.Proofs.Generator.Rejection

/-!
# Single draws

A uniform draw counts units of `2 ^ -53` exactly and lies in `[0, 1)`.  A normal draw takes an unforeseen
number of words, but every one of the ways it can end leaves a finite number.
-/

namespace Quantities

namespace Binary64

open Float.Model (UnpackedFloat Format)
open Float.Model.UnpackedFloat

/-! ## Bit patterns -/

section OfBits

variable {bits low high : UInt64}

/-- Below the pattern of infinity, every pattern is that of a finite nonnegative double. -/
theorem toBits_ofBits (h : bits.toNat < 0x7ff0000000000000) :
    (Float.ofBits bits).toBits = bits ∧ (Float.ofBits bits).isFinite = true := by
  have hexponent : @unpackExponent .binary64 bits.toBitVec ≠ -1#_ := by
    intro hones
    have hfield : (@unpackExponent .binary64 bits.toBitVec).toNat = bits.toNat / 2 ^ 52 % 2 ^ 11 := by
      rw [unpackExponent_def, BitVec.extractLsb'_toNat, Nat.shiftRight_eq_div_pow]
      rfl
    have htop : (-1#11 : BitVec 11).toNat = 2047 := rfl
    have hsame : (@unpackExponent .binary64 bits.toBitVec).toNat = (-1#11 : BitVec 11).toNat :=
      congrArg BitVec.toNat hones
    omega
  have hsame : (Float.ofBits bits).toBits.toBitVec = bits.toBitVec :=
    pack_unpack_of_valid ⟨fun hones => absurd hones hexponent⟩
  have hbits : (Float.ofBits bits).toBits = bits := UInt64.toBitVec_inj.mp hsame
  refine ⟨hbits, ?_⟩
  show (unpack .binary64 (Float.ofBits bits).toBits.toBitVec).isFinite = true
  rw [hsame]
  unfold unpack
  rw [if_neg hexponent]
  split
  · split <;> rfl
  · rfl

/-- Finite nonnegative doubles are ordered like their patterns. -/
theorem toRat_ofBits_mono (hle : low ≤ high) (hhigh : high.toNat < 0x7ff0000000000000) :
    toRat (.ofBits low) ≤ toRat (.ofBits high) := by
  have hle' : low.toNat ≤ high.toNat := UInt64.le_iff_toNat_le.mp hle
  obtain ⟨hlowbits, hlowfinite⟩ := toBits_ofBits (hle'.trans_lt hhigh)
  obtain ⟨hhighbits, hhighfinite⟩ := toBits_ofBits hhigh
  have hnonneg : ∀ {x : Float}, x.toBits.toNat < 0x7ff0000000000000 → isNegative x = false := by
    intro x hx
    rw [isNegative, decide_eq_false_iff_not, signBit]
    omega
  rw [toRat_of_not_isNegative hlowfinite (hnonneg (by rw [hlowbits]; omega)),
    toRat_of_not_isNegative hhighfinite (hnonneg (by rwa [hhighbits])), ← not_lt,
    ← below_lt_iff hhighfinite hlowfinite, below, below, hlowbits, hhighbits]
  omega

end OfBits

theorem toNat_shiftRight {word count : UInt64} (k : Nat) (hcount : count.toNat = k) (hk : k < 64) :
    (word >>> count).toNat = word.toNat / 2 ^ k := by
  rw [UInt64.toNat_shiftRight, hcount, Nat.mod_eq_of_lt hk, Nat.shiftRight_eq_div_pow]

/-- The doubles with an exponent field and the top 52 bits of a word behind it lie between two powers of
two. -/
theorem toRat_ofBits_or (word field next : UInt64) (n : Nat)
    (hfield : field.toNat = n * 2 ^ 52) (hnext : next.toNat = (n + 1) * 2 ^ 52) (hn : n < 2046) :
    (Float.ofBits ((word >>> 12) ||| field)).isFinite = true ∧
    toRat (.ofBits field) ≤ toRat (.ofBits ((word >>> 12) ||| field)) ∧
    toRat (.ofBits ((word >>> 12) ||| field)) ≤ toRat (.ofBits next) := by
  have hword := word.toNat_lt
  have hshift : (word >>> 12).toNat = word.toNat / 2 ^ 12 := toNat_shiftRight 12 rfl (by norm_num)
  have hfraction : (word >>> 12).toNat < 2 ^ 52 := by omega
  have hbits : ((word >>> 12) ||| field).toNat = n * 2 ^ 52 + (word >>> 12).toNat := by
    rw [UInt64.toNat_or, hfield, Nat.or_comm, ← Nat.shiftLeft_eq,
      ← Nat.shiftLeft_add_eq_or_of_lt hfraction]
  have hlow : field ≤ (word >>> 12) ||| field := by
    rw [UInt64.le_iff_toNat_le]
    omega
  have hhigh : (word >>> 12) ||| field ≤ next := by
    rw [UInt64.le_iff_toNat_le]
    omega
  exact ⟨(toBits_ofBits (by omega)).2, toRat_ofBits_mono hlow (by omega),
    toRat_ofBits_mono hhigh (by omega)⟩

/-- A word of at most 53 digits is a double. -/
theorem toRat_toFloat {word : UInt64} (h : word.toNat < 2 ^ 53) :
    word.toFloat.isFinite = true ∧ toRat word.toFloat = word.toNat := by
  have hrounds : Rounds (UnpackedFloat.normalize .binary64 word.toNat 0 .positive)
      (((word.toNat : ℤ) : ℚ) * 2 ^ (0 : ℤ)) := rounds_normalize word.toNat 0 .positive
  have hself : rounded (((word.toNat : ℤ) : ℚ) * 2 ^ (0 : ℤ)) = ((word.toNat : ℤ) : ℚ) * 2 ^ (0 : ℤ) :=
    rounded_eq_self (by rw [Nat.abs_cast]; exact_mod_cast h) (by norm_num)
  have hsmall : |(word.toNat : ℚ)| < beyond := by
    rw [Nat.abs_cast]
    calc (word.toNat : ℚ)
        < 2 ^ (53 : ℤ) := by exact_mod_cast h
      _ ≤ beyond := zpow_le_zpow_right₀ one_le_two (by norm_num)
  have hvalue : toRat word.toFloat = clamped (rounded (((word.toNat : ℤ) : ℚ) * 2 ^ (0 : ℤ))) :=
    hrounds.ratOf_eq
  rw [hself, zpow_zero, mul_one, Int.cast_natCast, clamped_eq_self hsmall] at hvalue
  have hnan : word.toFloat.isNaN = false := hrounds.isNaN_eq
  refine ⟨?_, hvalue⟩
  rw [isFinite_iff hnan, hvalue]
  exact hsmall

/-! ## Constants -/

theorem toRat_of_unpack {x : Float} {m : Nat} {e : Int} {hm : 0 < m}
    (h : x.toModel.unpack = .finite .positive m e hm) : toRat x = m * 2 ^ e := by
  rw [toRat, h, ratOf_finite_positive]

theorem toRat_unit : toRat (.ofBits 0x3ca0000000000000) = 2 ^ (-53 : ℤ) :=
  (toRat_of_unpack (m := 2 ^ 52) (e := -105) rfl).trans (by norm_num)

/-- The largest double below one. -/
theorem toRat_below_one : toRat (.ofBits 0x3fefffffffffffff) = 1 - 2 ^ (-53 : ℤ) :=
  (toRat_of_unpack (m := 2 ^ 53 - 1) (e := -53) rfl).trans (by norm_num)

theorem toRat_one : toRat 1.0 = 1 :=
  (toRat_of_unpack (m := 2 ^ 52) (e := -52) rfl).trans (by norm_num)

theorem toRat_two : toRat (.ofBits 0x4000000000000000) = 2 :=
  (toRat_of_unpack (m := 2 ^ 52) (e := -51) rfl).trans (by norm_num)

theorem toRat_three : toRat 3.0 = 3 :=
  (toRat_of_unpack (m := 3 * 2 ^ 51) (e := -51) rfl).trans (by norm_num)

theorem toRat_four : toRat (.ofBits 0x4010000000000000) = 4 :=
  (toRat_of_unpack (m := 2 ^ 52) (e := -50) rfl).trans (by norm_num)

end Binary64

namespace Generator

open Binary64

/-! ## Uniform draws -/

/-- The product that makes a uniform number out of a word is not rounded. -/
theorem unitInterval_exact (word : UInt64) :
    toRat (unitInterval word) = (word >>> 11).toNat * 2 ^ (-53 : ℤ) ∧
    (unitInterval word).isFinite = true ∧ 0.0 ≤ unitInterval word ∧ unitInterval word < 1.0 := by
  have hword := word.toNat_lt
  have hshift : (word >>> 11).toNat = word.toNat / 2 ^ 11 := toNat_shiftRight 11 rfl (by norm_num)
  have hdigits : (word >>> 11).toNat < 2 ^ 53 := by omega
  obtain ⟨hfinite, hvalue⟩ := toRat_toFloat hdigits
  have hlow : (0 : ℚ) ≤ (word >>> 11).toNat * 2 ^ (-53 : ℤ) :=
    mul_nonneg (Nat.cast_nonneg _) (two_zpow_pos _).le
  have hhigh : ((word >>> 11).toNat : ℚ) * 2 ^ (-53 : ℤ) < 1 := by
    have hcast : ((word >>> 11).toNat : ℚ) < 2 ^ (53 : ℤ) := by exact_mod_cast hdigits
    calc ((word >>> 11).toNat : ℚ) * 2 ^ (-53 : ℤ)
        < 2 ^ (53 : ℤ) * 2 ^ (-53 : ℤ) := mul_lt_mul_of_pos_right hcast (two_zpow_pos _)
      _ = 1 := by rw [← zpow_add₀ two_ne_zero]; rfl
  have hone : (1 : ℚ) < beyond := one_lt_zpow₀ one_lt_two (by norm_num)
  have hsmall : |((word >>> 11).toNat : ℚ) * 2 ^ (-53 : ℤ)| < beyond := by
    rw [abs_of_nonneg hlow]
    exact hhigh.trans hone
  have hself : rounded (((word >>> 11).toNat : ℚ) * 2 ^ (-53 : ℤ)) =
      (word >>> 11).toNat * 2 ^ (-53 : ℤ) := by
    have habs : |((word >>> 11).toNat : ℤ)| < 2 ^ 53 := by
      rw [Nat.abs_cast]
      exact_mod_cast hdigits
    exact_mod_cast rounded_eq_self (e := -53) habs (by norm_num)
  have hexact : toRat (unitInterval word) = (word >>> 11).toNat * 2 ^ (-53 : ℤ) := by
    rw [unitInterval, toRat_mul hfinite rfl, hvalue, toRat_unit, hself, clamped_eq_self hsmall]
  have hnan : (unitInterval word).isNaN = false := isNaN_mul hfinite rfl
  refine ⟨hexact, ?_, ?_, ?_⟩
  · rw [isFinite_iff hnan, hexact]
    exact hsmall
  · rw [le_iff isNaN_zero hnan, toRat_zero, hexact]
    exact hlow
  · rw [lt_iff hnan rfl, toRat_one, hexact]
    exact hhigh

/-! ## Normal draws -/

theorem isWithin_symmetricInterval (word : UInt64) : IsWithin 0 (symmetricInterval word) := by
  obtain ⟨hfinite, hlow, hhigh⟩ := toRat_ofBits_or word 0x4000000000000000
    0x4010000000000000 0x400 rfl rfl (by norm_num)
  rw [toRat_two] at hlow
  rw [toRat_four] at hhigh
  refine .of_rounded (by norm_num) (isNaN_sub hfinite rfl) (toRat_sub hfinite rfl) ?_
  rw [toRat_three, zpow_zero, abs_le]
  constructor <;> linarith

theorem openUnitInterval_pos (word : UInt64) :
    (openUnitInterval word).isFinite = true ∧ 0 < toRat (openUnitInterval word) := by
  obtain ⟨hfinite, hlow, hhigh⟩ := toRat_ofBits_or word 0x3ff0000000000000
    0x4000000000000000 0x3ff rfl rfl (by norm_num)
  have hone : toRat (.ofBits 0x3ff0000000000000) = 1 := toRat_one
  rw [hone] at hlow
  rw [toRat_two] at hhigh
  generalize hx : Float.ofBits ((word >>> 12) ||| 0x3ff0000000000000) = x at hfinite hlow hhigh
  have hunit : rounded (2 ^ (-53 : ℤ)) = 2 ^ (-53 : ℤ) := by
    simpa using rounded_eq_self (m := 1) (e := -53) (by norm_num) (by norm_num)
  have hpos : (0 : ℚ) < 2 ^ (-53 : ℤ) := two_zpow_pos _
  have hle : (2 : ℚ) ^ (-53 : ℤ) ≤ 1 := zpow_le_one_of_nonpos₀ one_le_two (by norm_num)
  have hwithin : IsWithin 1 (x - .ofBits 0x3fefffffffffffff) := by
    refine .of_rounded (by norm_num) (isNaN_sub hfinite rfl) (toRat_sub hfinite rfl) ?_
    rw [toRat_below_one, zpow_one, abs_le]
    constructor <;> linarith
  have hmono : 2 ^ (-53 : ℤ) ≤ rounded (toRat x - toRat (.ofBits 0x3fefffffffffffff)) := by
    rw [← hunit]
    apply rounded_mono
    rw [toRat_below_one]
    linarith
  rw [openUnitInterval, hx]
  refine ⟨hwithin.isFinite (by norm_num), ?_⟩
  rw [toRat_sub hfinite rfl, clamped_of_nonneg (hpos.le.trans hmono)]
  exact lt_min (hpos.trans_le hmono) beyond_pos

theorem isWithin_edge (layer : Fin 257) : IsWithin 2 (NormalLayers.edge layer) := by
  have hedges : NormalLayers.edgeBits.toList.all (fun bits => bits.toNat ≤ 0x4010000000000000) = true := by
    decide +kernel
  have hbits := List.all_eq_true.mp hedges NormalLayers.edgeBits[layer]
    (Vector.mem_toList_iff.mpr (Vector.getElem_mem layer.isLt))
  rw [decide_eq_true_iff] at hbits
  have hfinite : (NormalLayers.edge layer).isFinite = true := (toBits_ofBits (by omega)).2
  have hlow : toRat (.ofBits 0) ≤ toRat (NormalLayers.edge layer) :=
    toRat_ofBits_mono UInt64.zero_le (by omega)
  have hhigh : toRat (NormalLayers.edge layer) ≤ toRat (.ofBits 0x4010000000000000) :=
    toRat_ofBits_mono (UInt64.le_iff_toNat_le.mpr hbits) (by decide)
  have hzero : toRat (.ofBits 0) = 0 := toRat_zero
  rw [hzero] at hlow
  rw [toRat_four] at hhigh
  refine ⟨isNaN_of_isFinite hfinite, ?_⟩
  rw [abs_of_nonneg hlow]
  exact hhigh.trans (by norm_num)

theorem isWithin_tailStart : IsWithin 2 NormalLayers.tailStart :=
  isWithin_edge 1

theorem one_le_tailStart : (2 : ℚ) ^ (0 : ℤ) ≤ |toRat NormalLayers.tailStart| := by
  have hlow : (1.0 : Float) ≤ NormalLayers.tailStart := by decide
  rw [le_iff rfl rfl, toRat_one] at hlow
  rw [zpow_zero]
  exact hlow.trans (le_abs_self _)

theorem isWithin_tailRound {negative : Bool} {g : Generator} {x : Float}
    (h : (tailRound negative g).1 = some x) : IsWithin 12 x := by
  have hstart : IsWithin 11 NormalLayers.tailStart := isWithin_tailStart.mono (by norm_num)
  obtain ⟨hfinite, hpos⟩ := openUnitInterval_pos g.next.1
  -- The tail starts beyond one, so the quotient is no larger than the logarithm.
  have hpoint := (isWithin_ln hfinite hpos).div (hstart.isFinite (by norm_num)) one_le_tailStart
    (by norm_num) (by norm_num)
  simp only [tailRound] at h
  split at h
  · cases h
  · obtain rfl := Option.some.inj h
    split
    · exact hpoint.sub hstart (by norm_num) (by norm_num)
    · exact hstart.sub hpoint (by norm_num) (by norm_num)

theorem isWithin_normalTail (negative : Bool) (g : Generator) :
    IsWithin 12 (normalTail negative g).1 := by
  have hstart : IsWithin 12 NormalLayers.tailStart := isWithin_tailStart.mono (by norm_num)
  rw [normalTail]
  refine untilAccepted_of_round (P := IsWithin 12) ?_ (fun g x => isWithin_tailRound) 1000 g
  split
  · exact hstart.neg
  · exact hstart

theorem isWithin_layerRound {g : Generator} {x : Float} (h : (layerRound g).1 = some x) :
    IsWithin 12 x := by
  have hpoint (layer : Fin 257) :
      IsWithin 12 (symmetricInterval g.next.1 * NormalLayers.edge layer) :=
    ((isWithin_symmetricInterval g.next.1).mul (isWithin_edge layer) (by norm_num) (by norm_num)
      (by norm_num)).mono (by norm_num)
  simp only [layerRound] at h
  split at h
  · obtain rfl := Option.some.inj h
    exact hpoint _
  · split at h
    · obtain rfl := Option.some.inj h
      exact isWithin_normalTail _ _
    · split at h
      · obtain rfl := Option.some.inj h
        exact hpoint _
      · cases h

theorem isFinite_normal (g : Generator) : g.normal.1.isFinite = true := by
  have hzero : IsWithin 12 0.0 := by
    refine ⟨isNaN_zero, ?_⟩
    rw [toRat_zero, abs_zero]
    exact (two_zpow_pos 12).le
  rw [normal]
  exact (untilAccepted_of_round (P := IsWithin 12) hzero (fun g x => isWithin_layerRound) 1000 g).isFinite
    (by norm_num)

/-- A normal draw is that of the rounds without a bound, unless a thousand of them reject. -/
theorem settles_normal {g : Generator} (h : ¬RejectsFirst layerRound 1000 g) :
    Settles layerRound g g.normal := by
  rw [normal]
  exact settles_untilAccepted h

theorem settles_normalTail {negative : Bool} {g : Generator}
    (h : ¬RejectsFirst (tailRound negative) 1000 g) :
    Settles (tailRound negative) g (normalTail negative g) := by
  rw [normalTail]
  exact settles_untilAccepted h

end Generator

end Quantities
