import Quantities.Proofs.Binary64.Order
import Quantities.Proofs.Binary64.Sign

/-!
# The total order of doubles

Doubles are put in a total order by their bit patterns.  On finite doubles it is the order of their
numbers, with `-0.0` just before `0.0`, because the bits below the sign grow with the magnitude.
-/

namespace Quantities

namespace Binary64

open Float.Model (UnpackedFloat Format)
open Float.Model.UnpackedFloat

variable {x y z : Float}

/-! ## Bits -/

theorem toNat_packComponents (s : Sign) (exponent : BitVec 11) (mantissa : BitVec 52) :
    (packComponents .binary64 s exponent mantissa).toNat =
      s.toBitVec.toNat * 2 ^ 63 + exponent.toNat * 2 ^ 52 + mantissa.toNat := by
  have hmantissa := mantissa.isLt
  have hexponent := exponent.isLt
  show (s.toBitVec ++ exponent ++ mantissa).toNat = _
  rw [BitVec.toNat_append, BitVec.toNat_append, ← Nat.shiftLeft_add_eq_or_of_lt hmantissa,
    ← Nat.shiftLeft_add_eq_or_of_lt hexponent]
  simp only [Nat.shiftLeft_eq]
  ring

/-- The bits below the sign of a double with given parts. -/
def place (m : Nat) (e : Int) : Int :=
  (e + 1074) * 2 ^ 52 + m

theorem IsParts.place_pos {m : Nat} {e : Int} (h : IsParts m e) : 0 < place m e := by
  have hmin := h.isOnGrid.min_le
  have hm := h.pos
  unfold place
  omega

theorem IsParts.toNat_pack {m : Nat} {e : Int} (h : IsParts m e) (s : Sign) :
    (((UnpackedFloat.finite s m e h.pos).pack .binary64).toNat : Int) =
      s.toBitVec.toNat * 2 ^ 63 + place m e := by
  have hmin := h.isOnGrid.min_le
  have hmax := h.le
  have hlt := h.lt
  rw [pack_finite, if_neg (by omega), place]
  by_cases hnormal : 2 ^ 52 ≤ m
  · rw [if_pos ((Nat.log2_eq_iff h.pos.ne').mpr ⟨hnormal, hlt⟩), toNat_packComponents,
      BitVec.toNat_ofNat, BitVec.toNat_ofNat]
    push_cast
    omega
  · obtain rfl : e = -1074 := by
      by_contra hne
      exact hnormal (h.isOnGrid.normal (by omega))
    have hlog : m.log2 ≠ 52 := fun hlog =>
      hnormal ((Nat.le_log2 h.pos.ne').mp hlog.ge)
    rw [if_neg hlog, toNat_packComponents, BitVec.toNat_ofNat, BitVec.toNat_ofNat]
    push_cast
    omega

theorem IsParts.place_lt {m : Nat} {e : Int} (h : IsParts m e) : place m e < 2 ^ 63 := by
  have hmax := h.le
  have hlt := h.lt
  unfold place
  omega

theorem toNat_toBits (x : Float) :
    x.toBits.toNat = (x.toModel.unpack.pack .binary64).toNat := by
  rw [pack_unpack]
  rfl

theorem IsParts.place_lt_of_exponent_lt {m n : Nat} {e f : Int} (hm : IsParts m e) (hn : IsParts n f)
    (h : e < f) : place m e < place n f := by
  have hlt := hm.lt
  have hmin := hm.isOnGrid.min_le
  have hnormal := hn.isOnGrid.normal (by omega)
  unfold place
  omega

theorem place_lt_place {m n : Nat} {e : Int} (h : m < n) : place m e < place n e := by
  unfold place
  omega

/-- The bits of parts are compared like the numbers that the parts stand for. -/
theorem IsParts.place_lt_iff {m n : Nat} {e f : Int} (hm : IsParts m e) (hn : IsParts n f) :
    place m e < place n f ↔ (m : ℚ) * 2 ^ e < n * 2 ^ f := by
  have hplaces : ((compare e f).then (compare m n)).Compares (place m e) (place n f) :=
    compares_of_grows place_lt_of_exponent_lt place_lt_place hm hn
  exact hplaces.eq_lt.symm.trans (hm.compares hn).eq_lt

/-! ## Keys -/

def below (x : Float) : Int :=
  (x.toBits.toNat % 2 ^ 63 : Nat)

theorem isNegative_iff_le : isNegative x = true ↔ 2 ^ 63 ≤ x.toBits.toNat :=
  decide_eq_true_iff

theorem toNat_toBits_eq (x : Float) :
    (x.toBits.toNat : Int) = if isNegative x then 2 ^ 63 + below x else below x := by
  have hlt := x.toBits.toNat_lt
  unfold below
  split
  · next hnegative =>
    rw [isNegative_iff_le] at hnegative
    omega
  · next hnonneg =>
    rw [isNegative_iff_le] at hnonneg
    omega

theorem orderKey_eq (x : Float) :
    orderKey x = if isNegative x then -1 - below x else below x := by
  have hsign : ((signBit : Nat) : Int) = 2 ^ 63 := rfl
  have hbits := toNat_toBits_eq x
  unfold orderKey
  split
  · next hnegative =>
    rw [if_pos hnegative] at hbits
    show ((signBit : Nat) : Int) - 1 - x.toBits.toNat = _
    omega
  · next hnonneg =>
    rw [if_neg hnonneg] at hbits
    exact hbits

theorem below_nonneg (x : Float) : 0 ≤ below x :=
  Int.natCast_nonneg _

theorem below_of_unpack_zero {s : Sign} (h : x.toModel.unpack = .zero s) : below x = 0 := by
  have hbits : x.toBits.toNat = s.toBitVec.toNat * 2 ^ 63 + 0 * 2 ^ 52 + 0 := by
    rw [toNat_toBits, h]
    exact toNat_packComponents s 0#11 0#52
  unfold below
  omega

theorem below_of_unpack_finite {s : Sign} {m : Nat} {e : Int} {hm : 0 < m}
    (h : x.toModel.unpack = .finite s m e hm) : below x = place m e := by
  have hparts := isParts_of_unpack h
  have hpos := hparts.place_pos
  have hlt := hparts.place_lt
  have hbits : (x.toBits.toNat : Int) = s.toBitVec.toNat * 2 ^ 63 + place m e := by
    rw [toNat_toBits, h, hparts.toNat_pack]
  unfold below
  omega

/-- The bits below the sign are compared like the magnitudes of the numbers. -/
theorem below_lt_iff (hx : x.isFinite = true) (hy : y.isFinite = true) :
    below x < below y ↔ |toRat x| < |toRat y| := by
  have hxfinite : x.toModel.unpack.isFinite = true := hx
  have hyfinite : y.toModel.unpack.isFinite = true := hy
  rw [← toRat_abs, ← toRat_abs, toRat, toRat, unpack_abs, unpack_abs]
  cases hu : x.toModel.unpack with
  | notANumber => rw [hu] at hxfinite; cases hxfinite
  | infinity s => rw [hu] at hxfinite; cases hxfinite
  | zero s =>
      rw [below_of_unpack_zero hu]
      cases hv : y.toModel.unpack with
      | notANumber => rw [hv] at hyfinite; cases hyfinite
      | infinity t => rw [hv] at hyfinite; cases hyfinite
      | zero t =>
          rw [below_of_unpack_zero hv]
          exact iff_of_false (lt_irrefl _) (lt_irrefl _)
      | finite t n f hn =>
          have hparts := isParts_of_unpack hv
          rw [below_of_unpack_finite hv, UnpackedFloat.abs, UnpackedFloat.abs, ratOf_zero,
            ratOf_finite_positive]
          exact iff_of_true hparts.place_pos hparts.value_pos
  | finite s m e hm =>
      have hparts := isParts_of_unpack hu
      rw [below_of_unpack_finite hu]
      cases hv : y.toModel.unpack with
      | notANumber => rw [hv] at hyfinite; cases hyfinite
      | infinity t => rw [hv] at hyfinite; cases hyfinite
      | zero t =>
          rw [below_of_unpack_zero hv, UnpackedFloat.abs, UnpackedFloat.abs, ratOf_zero,
            ratOf_finite_positive]
          exact iff_of_false hparts.place_pos.not_gt hparts.value_pos.not_gt
      | finite t n f hn =>
          rw [below_of_unpack_finite hv, UnpackedFloat.abs, UnpackedFloat.abs, ratOf_finite_positive,
            ratOf_finite_positive]
          exact hparts.place_lt_iff (isParts_of_unpack hv)

/-! ## Order -/

theorem toRat_of_isNegative (h : x.isFinite = true) (hnegative : isNegative x = true) :
    toRat x = -|toRat x| := by
  have hsigned := signed_isNegative_abs h
  rw [JsonTree.signed, if_pos hnegative] at hsigned
  rw [← toRat_abs, ← toRat_neg, hsigned]

theorem toRat_of_not_isNegative (h : x.isFinite = true) (hnonneg : isNegative x = false) :
    toRat x = |toRat x| := by
  have hsigned := signed_isNegative_abs h
  rw [JsonTree.signed, hnonneg, if_neg Bool.false_ne_true] at hsigned
  rw [← toRat_abs, hsigned]

/-- A finite double is determined by its number and its sign. -/
theorem eq_of_toRat_eq (hx : x.isFinite = true) (hy : y.isFinite = true)
    (hsign : isNegative x = isNegative y) (h : toRat x = toRat y) : x = y := by
  have hbelow : below x = below y := by
    have hnotlt := (below_lt_iff hx hy).not.mpr (by rw [h]; exact lt_irrefl _)
    have hnotgt := (below_lt_iff hy hx).not.mpr (by rw [h]; exact lt_irrefl _)
    omega
  have hxbits := toNat_toBits_eq x
  rw [hsign, hbelow, ← toNat_toBits_eq y] at hxbits
  rw [← Float.toBits_inj, ← UInt64.toNat_inj]
  exact_mod_cast hxbits

/-- A finite double that stands for zero is one of the two zeros. -/
theorem eq_zero_of_toRat_eq_zero (hx : x.isFinite = true) (hzero : toRat x = 0) :
    x = if isNegative x then -0.0 else 0.0 := by
  cases hsign : isNegative x with
  | true =>
      have hvalue : toRat (-0.0) = 0 := by rw [toRat_neg, toRat_zero, neg_zero]
      exact eq_of_toRat_eq hx rfl hsign (hzero.trans hvalue.symm)
  | false => exact eq_of_toRat_eq hx rfl hsign (hzero.trans toRat_zero.symm)

/-- Strictly before in the total order is smaller, except that the zeros come in an order of their own. -/
theorem orderKey_lt_iff (hx : x.isFinite = true) (hy : y.isFinite = true) :
    orderKey x < orderKey y ↔ x < y ∨ x = -0.0 ∧ y = 0.0 := by
  have hxlow := below_nonneg x
  have hylow := below_nonneg y
  have hxabs := abs_nonneg (toRat x)
  have hyabs := abs_nonneg (toRat y)
  have hzeros : x = -0.0 ∧ y = 0.0 → isNegative x = true ∧ isNegative y = false := by
    rintro ⟨rfl, rfl⟩
    exact ⟨rfl, rfl⟩
  rw [lt_iff (isNaN_of_isFinite hx) (isNaN_of_isFinite hy), orderKey_eq, orderKey_eq]
  cases hxsign : isNegative x with
  | false =>
      have hxvalue := toRat_of_not_isNegative hx hxsign
      rw [hxsign] at hzeros
      rw [or_iff_left (fun h => by cases (hzeros h).1), if_neg Bool.false_ne_true]
      cases hysign : isNegative y with
      | false =>
          rw [if_neg Bool.false_ne_true, hxvalue, toRat_of_not_isNegative hy hysign]
          exact below_lt_iff hx hy
      | true =>
          have hyvalue := toRat_of_isNegative hy hysign
          rw [if_pos rfl]
          exact iff_of_false (by omega) (by linarith)
  | true =>
      have hxvalue := toRat_of_isNegative hx hxsign
      rw [hxsign] at hzeros
      rw [if_pos rfl]
      cases hysign : isNegative y with
      | true =>
          have hback := below_lt_iff hy hx
          rw [hysign] at hzeros
          rw [or_iff_left (fun h => by cases (hzeros h).2), if_pos rfl, hxvalue,
            toRat_of_isNegative hy hysign, neg_lt_neg_iff, ← hback]
          omega
      | false =>
          have hyvalue := toRat_of_not_isNegative hy hysign
          rw [if_neg Bool.false_ne_true]
          refine iff_of_true (by omega) ?_
          by_cases heq : toRat x = toRat y
          · have hxzero := eq_zero_of_toRat_eq_zero hx (by linarith)
            have hyzero := eq_zero_of_toRat_eq_zero hy (by linarith)
            rw [hxsign, if_pos rfl] at hxzero
            rw [hysign, if_neg Bool.false_ne_true] at hyzero
            exact .inr ⟨hxzero, hyzero⟩
          · exact .inl (lt_of_le_of_ne (by linarith) heq)

theorem orderKey_injective : Function.Injective orderKey := by
  intro x y h
  have hxlow := below_nonneg x
  have hylow := below_nonneg y
  have hxbits := toNat_toBits_eq x
  have hybits := toNat_toBits_eq y
  rw [orderKey_eq, orderKey_eq] at h
  rw [← Float.toBits_inj, ← UInt64.toNat_inj]
  cases hxsign : isNegative x <;> cases hysign : isNegative y <;>
    simp only [hxsign, hysign, if_true, Bool.false_eq_true, if_false] at h hxbits hybits <;> omega

/-- Is the smaller one of two doubles or the same, where `-0.0` comes before `0.0`. -/
def InOrder (x y : Float) : Prop :=
  x < y ∨ x = y ∨ x = -0.0 ∧ y = 0.0

/-- The total order of finite doubles is the order of their numbers, with `-0.0` before `0.0`. -/
theorem precedes_iff (hx : x.isFinite = true) (hy : y.isFinite = true) :
    precedes x y = true ↔ InOrder x y := by
  have hkeys : precedes x y = true ↔ orderKey x < orderKey y ∨ x = y := by
    rw [precedes, decide_eq_true_iff, le_iff_lt_or_eq, orderKey_injective.eq_iff]
  rw [hkeys, orderKey_lt_iff hx hy, InOrder]
  tauto

theorem InOrder.toRat_le (h : InOrder x y) (hx : x.isFinite = true) (hy : y.isFinite = true) :
    toRat x ≤ toRat y := by
  rcases h with hlt | rfl | ⟨rfl, rfl⟩
  · exact le_of_lt ((lt_iff (isNaN_of_isFinite hx) (isNaN_of_isFinite hy)).mp hlt)
  · exact le_refl _
  · rw [toRat_zero, toRat_neg, toRat_zero, neg_zero]

theorem precedes_total (x y : Float) : (precedes x y || precedes y x) = true := by
  simp only [precedes, Bool.or_eq_true, decide_eq_true_iff]
  exact le_total _ _

theorem precedes_trans (x y z : Float) (hxy : precedes x y = true) (hyz : precedes y z = true) :
    precedes x z = true := by
  rw [precedes, decide_eq_true_iff] at hxy hyz ⊢
  exact hxy.trans hyz

theorem precedes_antisymm (hxy : precedes x y = true) (hyx : precedes y x = true) : x = y := by
  rw [precedes, decide_eq_true_iff] at hxy hyx
  exact orderKey_injective (le_antisymm hxy hyx)

end Binary64

end Quantities
