import Mathlib
import Quantities.Reduction
import Quantities.Proofs.Binary64.Direction
import Quantities.Proofs.Generator.Sampling

/-!
# Sums in a direction

A sum of numbers in one direction never gets shorter on the way: it lies at least as far out as each of its
terms.  While it is bounded by a whole number that a double holds exactly, rounding does not carry it past
that bound, so that it stays finite.
-/

namespace Quantities

open Binary64
open Float.Model.UnpackedFloat (Sign)

variable {s : Sign} {x y start : Float} {xs : List Float} {j k m n : Nat}

/-! ## Terms stay visible -/

theorem isOutward_foldl_add (hstart : IsOutward s start) (hxs : ∀ x ∈ xs, IsOutward s x) :
    IsOutward s (xs.foldl (· + ·) start) ∧ along s start ≤ along s (xs.foldl (· + ·) start) ∧
      ∀ x ∈ xs, along s x ≤ along s (xs.foldl (· + ·) start) := by
  induction xs generalizing start with
  | nil => exact ⟨hstart, le_rfl, by simp⟩
  | cons x rest ih =>
      have hx := hxs x List.mem_cons_self
      obtain ⟨houtward, hgrows, hterms⟩ := ih (hstart.add hx) fun y hy => hxs y (List.mem_cons_of_mem _ hy)
      rw [List.foldl_cons]
      refine ⟨houtward, (hstart.le_along_add hx).trans hgrows, fun y hy => ?_⟩
      rcases List.mem_cons.mp hy with rfl | hy
      · have hstep := hx.le_along_add hstart
        rw [swap_add] at hstep
        exact hstep.trans hgrows
      · exact hterms y hy

theorem isOutward_sumOf (hxs : ∀ x ∈ xs, IsOutward s x) : IsOutward s (sumOf xs) :=
  (isOutward_foldl_add (isOutward_negative_zero s) hxs).1

theorem along_le_along_sumOf (hxs : ∀ x ∈ xs, IsOutward s x) (hx : x ∈ xs) :
    along s x ≤ along s (sumOf xs) :=
  (isOutward_foldl_add (isOutward_negative_zero s) hxs).2.2 x hx

/-! ## Whole bounds -/

namespace Binary64

theorem natCast_lt_beyond (h : n ≤ 2 ^ 53) : (n : ℚ) < beyond :=
  calc (n : ℚ)
      ≤ 2 ^ (53 : ℤ) := by exact_mod_cast h
    _ < beyond := zpow_lt_zpow_right₀ one_lt_two (by norm_num)

theorem rounded_natCast (h : n ≤ 2 ^ 53) : rounded n = n := by
  rcases h.lt_or_eq with hlt | rfl
  · have hself := rounded_eq_self (m := n) (e := 0) (by rw [Nat.abs_cast]; exact_mod_cast hlt)
      (by norm_num)
    simpa using hself
  · -- one digit more than a significand has, but a power of two
    have hself := rounded_eq_self (m := 1) (e := 53) (by norm_num) (by norm_num)
    have hpower : (((2 ^ 53 : Nat) : ℚ)) = ((1 : ℤ) : ℚ) * 2 ^ (53 : ℤ) := by norm_num
    rw [hpower, hself]

theorem toRat_ofNat (h : n ≤ 2 ^ 53) :
    (Float.ofNat n).isFinite = true ∧ toRat (Float.ofNat n) = n := by
  rcases h.lt_or_eq with hlt | rfl
  · have hword : n.toUInt64.toNat = n := UInt64.toNat_ofNat_of_lt' (hlt.trans (by norm_num))
    have hsmall : n.toUInt64.toNat < 2 ^ 53 := by rwa [hword]
    obtain ⟨hfinite, hvalue⟩ := toRat_toFloat hsmall
    have hofNat : Float.ofNat n = n.toUInt64.toFloat * 1.0 := by
      rw [Float.ofNat, show OfScientific.ofScientific n false 0 = Float.ofScientific n false 0 from rfl,
        Float.ofScientific, dif_pos ⟨hlt, by norm_num⟩]
      rfl
    rw [hofNat, mul_one_eq hfinite, hvalue, hword]
    exact ⟨hfinite, rfl⟩
  · have hunpack : (Float.ofNat (2 ^ 53)).toModel.unpack =
        .finite .positive (2 ^ 52) 1 (by norm_num) := rfl
    refine ⟨?_, (toRat_of_unpack hunpack).trans (by norm_num)⟩
    show (Float.ofNat (2 ^ 53)).toModel.unpack.isFinite = true
    rw [hunpack]
    rfl

/-- A finite number between two whole numbers in a direction. -/
structure IsBetween (s : Sign) (low high : Nat) (x : Float) : Prop where
  isFinite : x.isFinite = true
  le_along : low ≤ along s x
  along_le : along s x ≤ high

namespace IsBetween

theorem isOutward (h : IsBetween s j n x) : IsOutward s x :=
  ⟨isNaN_of_isFinite h.isFinite, j.cast_nonneg.trans h.le_along⟩

theorem negative_zero (s : Sign) : IsBetween s 0 0 (-0.0) := by
  have hzero : along s (-0.0) = 0 := by rw [along, toRat_neg, toRat_zero, neg_zero, mul_zero]
  refine ⟨rfl, ?_, ?_⟩
  · rw [hzero, Nat.cast_zero]
  · rw [hzero, Nat.cast_zero]

/-- Rounding does not carry a number past a whole number. -/
theorem of_rounded {q : ℚ} (hbound : n ≤ 2 ^ 53) (hnan : x.isNaN = false)
    (hx : along s x = clamped (rounded q)) (hlow : j ≤ q) (hhigh : q ≤ n) : IsBetween s j n x := by
  have hle : j ≤ n := by exact_mod_cast hlow.trans hhigh
  have hbelow := rounded_mono hlow
  have habove := rounded_mono hhigh
  rw [rounded_natCast (hle.trans hbound)] at hbelow
  rw [rounded_natCast hbound] at habove
  have hsmall : |rounded q| < beyond := by
    rw [abs_of_nonneg (j.cast_nonneg.trans hbelow)]
    exact habove.trans_lt (natCast_lt_beyond hbound)
  rw [clamped_eq_self hsmall] at hx
  refine ⟨?_, hx ▸ hbelow, hx ▸ habove⟩
  rwa [isFinite_iff hnan, ← abs_along s, hx]

theorem add (hx : IsBetween s j n x) (hy : IsBetween s k m y) (hbound : n + m ≤ 2 ^ 53) :
    IsBetween s (j + k) (n + m) (x + y) := by
  refine .of_rounded hbound (isNaN_add hx.isFinite (isNaN_of_isFinite hy.isFinite))
    (along_add s hx.isFinite hy.isFinite) ?_ ?_
  · rw [Nat.cast_add]
    exact add_le_add hx.le_along hy.le_along
  · rw [Nat.cast_add]
    exact add_le_add hx.along_le hy.along_le

theorem foldl_add (hstart : IsBetween s j n start) (hxs : ∀ x ∈ xs, IsBetween s k m x)
    (hbound : n + xs.length * m ≤ 2 ^ 53) :
    IsBetween s (j + xs.length * k) (n + xs.length * m) (xs.foldl (· + ·) start) := by
  induction xs generalizing start j n with
  | nil => simpa using hstart
  | cons x rest ih =>
      have hlength : ∀ i l, i + (x :: rest).length * l = i + l + rest.length * l := by
        intro i l
        rw [List.length_cons, Nat.succ_mul]
        omega
      rw [hlength] at hbound
      rw [hlength, hlength, List.foldl_cons]
      exact ih (hstart.add (hxs x List.mem_cons_self) (by omega))
        (fun y hy => hxs y (List.mem_cons_of_mem _ hy)) hbound

theorem sumOf (hxs : ∀ x ∈ xs, IsBetween s k m x) (hbound : xs.length * m ≤ 2 ^ 53) :
    IsBetween s (xs.length * k) (xs.length * m) (sumOf xs) := by
  have hfold := foldl_add (negative_zero s) hxs (by omega)
  rwa [Nat.zero_add, Nat.zero_add] at hfold

end IsBetween

/-- Numbers in one direction do not cancel. -/
theorem toRat_sumOf_eq_zero_iff (hxs : ∀ x ∈ xs, IsOutward s x) :
    toRat (Quantities.sumOf xs) = 0 ↔ ∀ x ∈ xs, toRat x = 0 := by
  rw [← along_eq_zero_iff (s := s)]
  constructor
  · intro hsum x hx
    have hle := along_le_along_sumOf hxs hx
    rw [hsum] at hle
    exact along_eq_zero_iff.mp (le_antisymm hle (hxs x hx).nonneg)
  · intro hzero
    have hterms : ∀ x ∈ xs, IsBetween s 0 0 x := by
      intro x hx
      have hvalue : along s x = 0 := along_eq_zero_iff.mpr (hzero x hx)
      refine ⟨?_, ?_, ?_⟩
      · rw [isFinite_iff (hxs x hx).isNaN_eq, hzero x hx, abs_zero]
        exact beyond_pos
      · rw [hvalue, Nat.cast_zero]
      · rw [hvalue, Nat.cast_zero]
    have hsum := (IsBetween.sumOf hterms (by omega)).along_le
    rw [Nat.mul_zero, Nat.cast_zero] at hsum
    exact le_antisymm hsum (isOutward_sumOf hxs).nonneg

end Binary64

end Quantities
