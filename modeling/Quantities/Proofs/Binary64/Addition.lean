import Mathlib
import Quantities.Proofs.Binary64.Nearest

/-!
# Sums of doubles

The sum of two finite doubles is the double nearest to the sum of their numbers, with the infinities
standing for what is too large.  A sum therefore grows with each of its terms, whatever rounding does to it.
-/

namespace Quantities

namespace Binary64

open Float.Model (UnpackedFloat Format totalExponent)
open Float.Model.UnpackedFloat

/-! ## Overflow -/

/-- Cuts a number off where the infinities begin. -/
def clamped (q : ℚ) : ℚ :=
  max (-beyond) (min q beyond)

theorem clamped_mono : Monotone clamped := by
  intro p q hpq
  exact max_le_max le_rfl (min_le_min hpq le_rfl)

theorem clamped_eq_self {q : ℚ} (h : |q| < beyond) : clamped q = q := by
  obtain ⟨hlow, hhigh⟩ := abs_lt.mp h
  rw [clamped, min_eq_left hhigh.le, max_eq_right hlow.le]

theorem clamped_of_beyond_le {q : ℚ} (h : beyond ≤ q) : clamped q = beyond := by
  rw [clamped, min_eq_right h, max_eq_right (by linarith [beyond_pos])]

theorem clamped_neg (q : ℚ) : clamped (-q) = -clamped q := by
  have hbeyond := beyond_pos
  rcases le_total beyond |q| with hout | hin
  · rcases le_total 0 q with hq | hq
    · rw [abs_of_nonneg hq] at hout
      rw [clamped_of_beyond_le hout, clamped, min_eq_left (by linarith), max_eq_left (by linarith)]
    · rw [abs_of_nonpos hq] at hout
      rw [clamped_of_beyond_le hout, clamped, min_eq_left (by linarith), max_eq_left (by linarith),
        neg_neg]
  · obtain ⟨hlow, hhigh⟩ := abs_le.mp hin
    rw [clamped, clamped, min_eq_left hhigh, max_eq_right hlow, min_eq_left (by linarith),
      max_eq_right (by linarith)]

theorem clamped_abs (q : ℚ) : clamped |q| = |clamped q| := by
  have hnonneg : ∀ r, 0 ≤ r → 0 ≤ clamped r := by
    intro r hr
    exact le_max_of_le_right (le_min hr beyond_pos.le)
  rcases le_total 0 q with hq | hq
  · rw [abs_of_nonneg hq, abs_of_nonneg (hnonneg q hq)]
  · have hneg := hnonneg (-q) (neg_nonneg.mpr hq)
    rw [abs_of_nonpos hq, ← abs_neg, ← clamped_neg, abs_of_nonneg hneg]

theorem clamped_of_nonneg {q : ℚ} (h : 0 ≤ q) : clamped q = min q beyond :=
  max_eq_right ((neg_nonpos.mpr beyond_pos.le).trans (le_min h beyond_pos.le))

theorem le_of_le_clamped {p q : ℚ} (hp : -beyond < p) (h : p ≤ clamped q) : p ≤ q := by
  rcases le_max_iff.mp h with hlow | hrest
  · exact absurd hlow (not_le.mpr hp)
  · exact hrest.trans (min_le_left _ _)

theorem le_of_clamped_le {p q : ℚ} (hp : p < beyond) (h : clamped q ≤ p) : q ≤ p := by
  rcases min_le_iff.mp ((le_max_right _ _).trans h) with hrest | hhigh
  · exact hrest
  · exact absurd hhigh (not_le.mpr hp)

theorem clamped_eq_zero_iff (q : ℚ) : clamped q = 0 ↔ q = 0 := by
  constructor
  · intro h
    have hnonpos : q ≤ 0 := le_of_clamped_le beyond_pos h.le
    have hnonneg : 0 ≤ q := le_of_le_clamped (neg_lt_zero.mpr beyond_pos) h.ge
    exact le_antisymm hnonpos hnonneg
  · rintro rfl
    exact clamped_eq_self (abs_zero.trans_lt beyond_pos)

/-- What is left of an unpacked double after packing. -/
def repacked (u : UnpackedFloat) : UnpackedFloat :=
  unpack .binary64 (u.pack .binary64)

/-- Is packed as the double nearest to a number. -/
structure Rounds (u : UnpackedFloat) (q : ℚ) : Prop where
  isNaN_eq : (repacked u).isNaN = false
  ratOf_eq : ratOf (repacked u) = clamped (rounded q)

theorem rounds_zero (s : Sign) {q : ℚ} (hq : rounded q = 0) : Rounds (.zero s) q := by
  have hsame : repacked (.zero s) = .zero s := unpack_packedZero
  refine ⟨by rw [hsame]; rfl, ?_⟩
  rw [hsame, hq, clamped_eq_self (by simpa using beyond_pos), ratOf_zero]

theorem rounds_finite (s : Sign) {n : Nat} {f : Int} {q : ℚ} (hn : 0 < n) (h : IsOnGrid n f)
    (hq : rounded q = s.apply n * 2 ^ f) : Rounds (.finite s n f hn) q := by
  by_cases hf : f ≤ 971
  · have hparts := h.isParts hf
    have hsame : repacked (.finite s n f hn) = .finite s n f hn := unpack_pack hparts
    refine ⟨by rw [hsame]; rfl, ?_⟩
    rw [hsame, hq, ← clamped_eq_self (abs_ratOf_lt (u := .finite s n f hn) hparts rfl)]
    rfl
  · have hsame : repacked (.finite s n f hn) = .infinity s := by
      rw [repacked, pack_finite, if_pos (by omega), unpack_packedInfinity]
    have hlarge := h.beyond_le (by omega)
    refine ⟨by rw [hsame]; rfl, ?_⟩
    rw [hsame, hq]
    cases s with
    | positive =>
        rw [ratOf_infinity_positive, Sign.apply, Int.cast_natCast, clamped_of_beyond_le hlarge]
    | negative =>
        rw [ratOf_infinity_negative, Sign.apply, Int.cast_neg, Int.cast_natCast, neg_mul, clamped_neg,
          clamped_of_beyond_le hlarge]

theorem apply_eq_mul (s : Sign) (n : Nat) : ((s.apply n : ℤ) : ℚ) = s.apply 1 * n := by
  cases s <;> simp [Sign.apply]

theorem rounded_apply_mul (s : Sign) (q : ℚ) :
    rounded (s.apply 1 * q) = s.apply 1 * rounded q := by
  cases s with
  | positive => simp [Sign.apply]
  | negative => simp [Sign.apply, rounded_neg]

/-- The sign does not matter for the rounding of a magnitude. -/
theorem rounds_of_cases (s : Sign) {u : UnpackedFloat} {q : ℚ}
    (h : (u = .zero s ∧ rounded q = 0) ∨
      ∃ n f hn, u = .finite s n f hn ∧ IsOnGrid n f ∧ rounded q = n * 2 ^ f) :
    Rounds u (s.apply 1 * q) := by
  have hsigned := rounded_apply_mul s q
  rcases h with ⟨rfl, hvalue⟩ | ⟨n, f, hn, rfl, hgrid, hvalue⟩
  · apply rounds_zero
    rw [hsigned, hvalue, mul_zero]
  · apply rounds_finite s hn hgrid
    rw [hsigned, hvalue, apply_eq_mul, mul_assoc]

theorem rounds_round (s : Sign) {m : Nat} (hm : 0 < m) (e : Int) :
    Rounds (UnpackedFloat.round .binary64 s m e) (s.apply m * 2 ^ e) := by
  rw [apply_eq_mul, mul_assoc]
  exact rounds_of_cases s (round_cases s hm e)

theorem rounds_normalize (n e : Int) (s : Sign) :
    Rounds (UnpackedFloat.normalize .binary64 n e s) (n * 2 ^ e) := by
  unfold UnpackedFloat.normalize
  rcases lt_trichotomy n 0 with hneg | rfl | hpos
  · rw [compare_lt_iff_lt.mpr hneg]
    have hround := rounds_round .negative (m := (-n).toNat) (by omega) e
    have happly : Sign.negative.apply ((-n).toNat : ℤ) = n := by
      show -((-n).toNat : ℤ) = n
      omega
    rwa [happly] at hround
  · rw [compare_eq_iff_eq.mpr rfl]
    exact rounds_zero s (by rw [Int.cast_zero, zero_mul, rounded_zero])
  · rw [compare_gt_iff_gt.mpr hpos]
    have hround := rounds_round .positive (m := n.toNat) (by omega) e
    have happly : Sign.positive.apply (n.toNat : ℤ) = n := by
      show (n.toNat : ℤ) = n
      omega
    rwa [happly] at hround

/-! ## Sums -/

theorem rounds_self {u : UnpackedFloat} (hu : IsCanonical u) (h : u.isFinite = true) :
    Rounds u (ratOf u) := by
  cases u with
  | notANumber => cases h
  | infinity s => cases h
  | zero s => exact rounds_zero s rounded_zero
  | finite s m e hm =>
      have hparts : IsParts m e := hu
      refine rounds_finite s hm hparts.isOnGrid ?_
      have habs : |s.apply (m : ℤ)| < 2 ^ 53 := by
        have hlt := hparts.lt
        cases s <;> simp only [Sign.apply, abs_neg, Nat.abs_cast] <;> exact_mod_cast hlt
      exact rounded_eq_self habs hparts.isOnGrid.min_le

theorem apply_mul_two_zpow (s : Sign) {m n : Nat} {e f : Int}
    (h : (m : ℚ) * 2 ^ e = n * 2 ^ f) :
    ((s.apply m : ℤ) : ℚ) * 2 ^ e = s.apply n * 2 ^ f := by
  rw [apply_eq_mul, apply_eq_mul s n, mul_assoc, h, mul_assoc]

theorem rounds_add {u v : UnpackedFloat} (hu : IsCanonical u) (hv : IsCanonical v)
    (hufin : u.isFinite = true) (hvfin : v.isFinite = true) :
    Rounds (UnpackedFloat.add .binary64 u v) (ratOf u + ratOf v) := by
  cases u with
  | notANumber => cases hufin
  | infinity s => cases hufin
  | zero s =>
      cases v with
      | notANumber => cases hvfin
      | infinity t => cases hvfin
      | zero t =>
          have hsum : rounded (ratOf (.zero s) + ratOf (.zero t)) = 0 := by
            rw [ratOf_zero, ratOf_zero, add_zero, rounded_zero]
          cases s <;> cases t <;> exact rounds_zero _ hsum
      | finite t n f hn =>
          rw [ratOf_zero, zero_add]
          exact rounds_self hv rfl
  | finite s m e hm =>
      cases v with
      | notANumber => cases hvfin
      | infinity t => cases hvfin
      | zero t =>
          rw [ratOf_zero, add_zero]
          exact rounds_self hu rfl
      | finite t n f hn =>
          have hm' := decreaseExponent_value m e (min e f)
          have hn' := decreaseExponent_value n f (min e f)
          rw [min_eq_right (min_le_left e f)] at hm'
          rw [min_eq_right (min_le_right e f)] at hn'
          have hsum := rounds_normalize
            (s.apply (decreaseExponent m e (min e f)).1 + t.apply (decreaseExponent n f (min e f)).1)
            (min e f) .positive
          rw [Int.cast_add, add_mul, apply_mul_two_zpow s hm', apply_mul_two_zpow t hn'] at hsum
          exact hsum

theorem unpacked_sub_eq_add (u v : UnpackedFloat) :
    UnpackedFloat.sub .binary64 u v = UnpackedFloat.add .binary64 u v.neg := by
  cases u with
  | finite s m e hm =>
      cases v with
      | finite t n f hn =>
          simp only [UnpackedFloat.sub, UnpackedFloat.add, UnpackedFloat.neg]
          rw [neg_apply, Int.sub_eq_add_neg]
      | _ => rfl
  | _ => cases v <;> rfl

theorem unpacked_add_comm (u v : UnpackedFloat) :
    UnpackedFloat.add .binary64 u v = UnpackedFloat.add .binary64 v u := by
  cases u with
  | notANumber => cases v <;> rfl
  | infinity s =>
      cases v with
      | infinity t => cases s <;> cases t <;> rfl
      | _ => rfl
  | zero s =>
      cases v with
      | zero t => cases s <;> cases t <;> rfl
      | _ => rfl
  | finite s m e hm =>
      cases v with
      | finite t n f hn =>
          simp only [UnpackedFloat.add]
          rw [Int.add_comm, Int.min_comm]
      | _ => rfl

section Float

variable {x y z : Float}

theorem sub_eq (x y : Float) : x - y = x + -y := by
  show Float.ofModel (.pack (UnpackedFloat.sub .binary64 x.toModel.unpack y.toModel.unpack)) =
    Float.ofModel (.pack (UnpackedFloat.add .binary64 x.toModel.unpack (-y).toModel.unpack))
  rw [unpack_neg, unpacked_sub_eq_add]

theorem swap_add (x y : Float) : x + y = y + x := by
  show Float.ofModel (.pack (UnpackedFloat.add .binary64 x.toModel.unpack y.toModel.unpack)) =
    Float.ofModel (.pack (UnpackedFloat.add .binary64 y.toModel.unpack x.toModel.unpack))
  rw [unpacked_add_comm]

/-- Zero is lost in a sum, but the sum of the two zeros is the positive one. -/
theorem add_zero_eq (hx : x.isFinite = true) : x + 0.0 = if x = -0.0 then 0.0 else x := by
  have hfinite : x.toModel.unpack.isFinite = true := hx
  split
  · next hneg =>
    rw [hneg]
    rfl
  · next hne =>
    have hsame : UnpackedFloat.add .binary64 x.toModel.unpack (.zero .positive) =
        x.toModel.unpack := by
      cases hu : x.toModel.unpack with
      | notANumber => rw [hu] at hfinite; cases hfinite
      | infinity s => rfl
      | zero s =>
          cases s with
          | positive => rfl
          | negative => exact absurd (eq_of_unpack_eq hu) hne
      | finite s m e hm => rfl
    have hsum : (x + 0.0).toBits.toBitVec =
        (UnpackedFloat.add .binary64 x.toModel.unpack (.zero .positive)).pack .binary64 := rfl
    rw [← Float.toBits_inj, ← UInt64.toBitVec_inj, hsum, hsame, pack_unpack]

theorem isFinite_neg (x : Float) : (-x).isFinite = x.isFinite := by
  show (-x).toModel.unpack.isFinite = x.toModel.unpack.isFinite
  rw [unpack_neg]
  cases x.toModel.unpack <;> rfl

theorem toRat_add (hx : x.isFinite = true) (hy : y.isFinite = true) :
    toRat (x + y) = clamped (rounded (toRat x + toRat y)) :=
  (rounds_add (isCanonical_unpack x) (isCanonical_unpack y) hx hy).ratOf_eq

theorem toRat_sub (hx : x.isFinite = true) (hy : y.isFinite = true) :
    toRat (x - y) = clamped (rounded (toRat x - toRat y)) := by
  rw [sub_eq, toRat_add hx (by rwa [isFinite_neg]), toRat_neg, ← sub_eq_add_neg]

/-- An infinite term is the sum. -/
theorem unpack_add_of_infinity (hx : x.isFinite = true) {s : Sign}
    (hy : y.toModel.unpack = .infinity s) : (x + y).toModel.unpack = .infinity s := by
  have hfinite : x.toModel.unpack.isFinite = true := hx
  have hsum : UnpackedFloat.add .binary64 x.toModel.unpack y.toModel.unpack = .infinity s := by
    rw [hy]
    cases hu : x.toModel.unpack with
    | notANumber => rw [hu] at hfinite; cases hfinite
    | infinity t => rw [hu] at hfinite; cases hfinite
    | _ => rfl
  show repacked (UnpackedFloat.add .binary64 x.toModel.unpack y.toModel.unpack) = .infinity s
  rw [hsum, repacked, UnpackedFloat.pack, unpack_packedInfinity]

theorem exists_unpack_eq_infinity (hx : x.isNaN = false) (hinfinite : x.isFinite = false) :
    ∃ s, x.toModel.unpack = .infinity s := by
  have hnan : x.toModel.unpack.isNaN = false := hx
  have hfinite : x.toModel.unpack.isFinite = false := hinfinite
  cases hu : x.toModel.unpack with
  | notANumber => rw [hu] at hnan; cases hnan
  | infinity s => exact ⟨s, rfl⟩
  | zero s => rw [hu] at hfinite; cases hfinite
  | finite s m e hm => rw [hu] at hfinite; cases hfinite

theorem abs_toRat_of_not_isFinite (hx : x.isNaN = false) (hinfinite : x.isFinite = false) :
    |toRat x| = beyond := by
  obtain ⟨s, hs⟩ := exists_unpack_eq_infinity hx hinfinite
  rw [toRat, hs, abs_ratOf_infinity]

theorem toRat_add_of_not_isFinite (hx : x.isFinite = true) (hy : y.isNaN = false)
    (hinfinite : y.isFinite = false) : toRat (x + y) = toRat y := by
  obtain ⟨s, hs⟩ := exists_unpack_eq_infinity hy hinfinite
  rw [toRat, unpack_add_of_infinity hx hs, toRat, hs]

theorem isNaN_add (hx : x.isFinite = true) (hy : y.isNaN = false) : (x + y).isNaN = false := by
  cases hfinite : y.isFinite with
  | true => exact (rounds_add (isCanonical_unpack x) (isCanonical_unpack y) hx hfinite).isNaN_eq
  | false =>
      obtain ⟨s, hs⟩ := exists_unpack_eq_infinity hy hfinite
      show (x + y).toModel.unpack.isNaN = false
      rw [unpack_add_of_infinity hx hs]
      rfl

theorem isNaN_sub (hx : x.isFinite = true) (hy : y.isNaN = false) : (x - y).isNaN = false := by
  rw [sub_eq]
  exact isNaN_add hx (by rwa [isNaN_neg])

/-- What is rounded to a double that is not finite was too large. -/
theorem beyond_le_of_not_isFinite {q : ℚ} (hx : x.isNaN = false)
    (hvalue : toRat x = clamped (rounded q)) (hinfinite : x.isFinite = false) :
    beyond ≤ |rounded q| := by
  have hend := abs_toRat_of_not_isFinite hx hinfinite
  rw [hvalue, ← clamped_abs, clamped_of_nonneg (abs_nonneg _), min_eq_right_iff] at hend
  exact hend

/-- A sum grows with its second term. -/
theorem toRat_add_le_add (hx : x.isFinite = true) (hy : y.isNaN = false) (hz : z.isNaN = false)
    (h : toRat y ≤ toRat z) : toRat (x + y) ≤ toRat (x + z) := by
  have hlow := neg_le_of_abs_le (abs_toRat_le (x + z))
  have hhigh := le_of_abs_le (abs_toRat_le (x + y))
  cases hyfinite : y.isFinite with
  | false =>
      have hend := abs_toRat_of_not_isFinite hy hyfinite
      rw [toRat_add_of_not_isFinite hx hy hyfinite]
      rcases eq_or_eq_neg_of_abs_eq hend with htop | hbottom
      · have hzfinite : z.isFinite = false := by
          rw [← Bool.not_eq_true, isFinite_iff hz, not_lt]
          exact (htop ▸ h).trans (le_abs_self _)
        rw [toRat_add_of_not_isFinite hx hz hzfinite]
        exact h
      · rw [hbottom]
        exact hlow
  | true =>
      cases hzfinite : z.isFinite with
      | false =>
          have hend := abs_toRat_of_not_isFinite hz hzfinite
          have hinside := (abs_lt.mp ((isFinite_iff hy).mp hyfinite)).1
          rw [toRat_add_of_not_isFinite hx hz hzfinite]
          rcases eq_or_eq_neg_of_abs_eq hend with htop | hbottom
          · rw [htop]
            exact hhigh
          · rw [hbottom] at h
            exact absurd h (not_le.mpr hinside)
      | true =>
          rw [toRat_add hx hyfinite, toRat_add hx hzfinite]
          exact clamped_mono (rounded_mono (add_le_add_right h _))

theorem toRat_sub_le_sub (hx : x.isFinite = true) (hy : y.isNaN = false) (hz : z.isNaN = false)
    (h : toRat y ≤ toRat z) : toRat (x - z) ≤ toRat (x - y) := by
  rw [sub_eq, sub_eq]
  refine toRat_add_le_add hx (by rwa [isNaN_neg]) (by rwa [isNaN_neg]) ?_
  rw [toRat_neg, toRat_neg]
  exact neg_le_neg h

theorem clamped_rounded_toRat (hx : x.isFinite = true) : clamped (rounded (toRat x)) = toRat x := by
  rw [rounded_toRat hx, clamped_eq_self ((isFinite_iff (isNaN_of_isFinite hx)).mp hx)]

/-- Zeros of either sign do not matter in a sum. -/
theorem toRat_add_of_toRat_eq_zero (hx : x.isFinite = true) (hy : y.isNaN = false)
    (hzero : toRat y = 0) : toRat (x + y) = toRat x := by
  have hfinite : y.isFinite = true := by
    rw [isFinite_iff hy, hzero, abs_zero]
    exact beyond_pos
  rw [toRat_add hx hfinite, hzero, add_zero, clamped_rounded_toRat hx]

theorem toRat_sub_of_toRat_eq_zero (hx : x.isFinite = true) (hy : y.isNaN = false)
    (hzero : toRat y = 0) : toRat (x - y) = toRat x := by
  rw [sub_eq]
  refine toRat_add_of_toRat_eq_zero hx (by rwa [isNaN_neg]) ?_
  rw [toRat_neg, hzero, neg_zero]

theorem isNaN_abs_sub (hx : x.isFinite = true) (hy : y.isFinite = true) :
    (x - y).abs.isNaN = false := by
  rw [isNaN_abs]
  exact isNaN_sub hx (isNaN_of_isFinite hy)

theorem toRat_abs_sub (hx : x.isFinite = true) (hy : y.isFinite = true) :
    toRat (x - y).abs = min (rounded |toRat x - toRat y|) beyond := by
  rw [toRat_abs, toRat_sub hx hy, ← clamped_abs, ← rounded_abs,
    clamped_of_nonneg (rounded_nonneg (abs_nonneg _))]

/-- Two finite doubles are whole multiples of the smallest one apart. -/
theorem exists_toRat_sub_eq (hx : x.isFinite = true) (hy : y.isFinite = true) :
    ∃ k : ℤ, toRat x - toRat y = k * 2 ^ (-1074 : ℤ) := by
  obtain ⟨m, hm⟩ := exists_toRat_eq hx
  obtain ⟨n, hn⟩ := exists_toRat_eq hy
  refine ⟨m - n, ?_⟩
  rw [hm, hn, Int.cast_sub, sub_mul]

/-- Rounding does not lose what is left of two different numbers. -/
theorem rounded_sub_pos (hx : x.isFinite = true) (hy : y.isFinite = true)
    (hne : toRat x ≠ toRat y) : 0 < rounded |toRat x - toRat y| := by
  obtain ⟨k, hk⟩ := exists_toRat_sub_eq hx hy
  have herror := abs_rounded_sub_le hk
  have hpos : 0 < |toRat x - toRat y| := abs_pos.mpr (sub_ne_zero.mpr hne)
  rw [rounded_abs, abs_pos]
  intro hzero
  -- All of the difference would be lost, which is more than the relative error allows.
  have hsmall : (2 : ℚ) ^ (-53 : ℤ) < 1 := by norm_num
  rw [hzero, zero_sub, abs_neg] at herror
  exact absurd herror (not_le.mpr (mul_lt_of_lt_one_left hpos hsmall))

end Float

end Binary64

end Quantities
