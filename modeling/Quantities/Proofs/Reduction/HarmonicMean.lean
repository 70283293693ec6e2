import Mathlib
import Quantities.Proofs.Binary64.ZeroSign
import Quantities.Proofs.Reduction.Extrema
import Quantities.Proofs.Reduction.Sums

/-!
# The harmonic mean of numbers of one sign

Reciprocals that are taken relative to the smallest magnitude lie between zero and one, and one of them is
one.  Their sum neither overflows nor vanishes, so that the scaling of the mean at the end is the only step
that can overflow.  The mean of equal numbers is that number, bit for bit.
-/

namespace Quantities

open Binary64 KeyedSet
open Float.Model.UnpackedFloat (Sign)

variable {s : KeyedSet} {sign : Sign} {x y mean : Float} {xs : List Float}

/-! ## Steps of the mean -/

def harmonicScale (xs : List Float) : Float :=
  minimumOf (xs.map Float.abs)

def scaledReciprocals (xs : List Float) : List Float :=
  xs.map fun x => harmonicScale xs / x

def scaledMean (xs : List Float) : Float :=
  .ofNat xs.length / sumOf (scaledReciprocals xs)

theorem harmonicMeanOf_eq (xs : List Float) : harmonicMeanOf xs = scaledMean xs * harmonicScale xs :=
  rfl

/-! ## Numbers of one sign -/

def HasSign : Sign → Float → Prop
  | .positive, x => 0.0 < x
  | .negative, x => x < 0.0

theorem hasSign_iff (hx : x.isNaN = false) : HasSign sign x ↔ 0 < along sign x := by
  cases sign with
  | positive => rw [HasSign, lt_iff isNaN_zero hx, toRat_zero, along_positive]
  | negative => rw [HasSign, lt_iff hx isNaN_zero, toRat_zero, along_negative, Left.neg_pos_iff]

theorem exists_hasSign (hx : x.isFinite = true) (hne : (x == 0.0) = false) : ∃ sign, HasSign sign x := by
  have hnan := isNaN_of_isFinite hx
  rw [← Bool.not_eq_true, beq_iff hnan isNaN_zero, toRat_zero] at hne
  rcases lt_or_gt_of_ne hne with hneg | hpos
  · exact ⟨.negative, (hasSign_iff hnan).mpr (by simpa using hneg)⟩
  · exact ⟨.positive, (hasSign_iff hnan).mpr (by simpa using hpos)⟩

theorem abs_toRat_of_along_pos (h : 0 < along sign x) : |toRat x| = along sign x := by
  rw [← abs_along sign, abs_of_pos h]

theorem toRat_ne_zero_of_along_pos (h : 0 < along sign x) : toRat x ≠ 0 := by
  rw [Ne, ← along_eq_zero_iff (s := sign)]
  exact h.ne'

theorem eq_of_along_eq (hx : x.isFinite = true) (hy : y.isFinite = true) (hpos : 0 < along sign x)
    (h : along sign y = along sign x) : y = x := by
  have hsame : toRat x = toRat y := by
    cases sign with
    | positive => simpa using h.symm
    | negative => simpa using h.symm
  refine ((Alike.of_toRat_eq hx hy hsame).eq_of_bne_zero fun hzero => ?_).symm
  rw [beq_iff (isNaN_of_isFinite hx) isNaN_zero, toRat_zero] at hzero
  exact toRat_ne_zero_of_along_pos hpos hzero

/-- Finite numbers other than zero, all of one sign, no more of them than a double can count. -/
structure IsOneSigned (sign : Sign) (xs : List Float) : Prop where
  nonempty : xs ≠ []
  length_le : xs.length ≤ 2 ^ 53
  isFinite : ∀ x ∈ xs, x.isFinite = true
  along_pos : ∀ x ∈ xs, 0 < along sign x

namespace IsOneSigned

variable (h : IsOneSigned sign xs)
include h

theorem one_le_length : 1 ≤ xs.length :=
  List.length_pos_of_ne_nil h.nonempty

/-- The scale is the magnitude of one of the numbers and at most that of each. -/
theorem harmonicScale_spec : (harmonicScale xs).isFinite = true ∧
    (∃ x ∈ xs, toRat (harmonicScale xs) = along sign x) ∧
    ∀ x ∈ xs, toRat (harmonicScale xs) ≤ along sign x := by
  have hfinite : ∀ y ∈ xs.map Float.abs, y.isFinite = true := by
    intro y hy
    obtain ⟨x, hx, rfl⟩ := List.mem_map.mp hy
    exact isFinite_abs (h.isFinite x hx)
  obtain ⟨hmem, hbounds⟩ := Extremum.smallest.foldl_pick_neutral (by simpa using h.nonempty) hfinite
  refine ⟨hfinite _ hmem, ?_, fun x hx => ?_⟩
  · obtain ⟨x, hx, hscale⟩ := List.mem_map.mp hmem
    refine ⟨x, hx, ?_⟩
    rw [← abs_toRat_of_along_pos (h.along_pos x hx), ← toRat_abs, hscale]
    rfl
  · have hle := hbounds x.abs (List.mem_map_of_mem hx)
    rw [← abs_toRat_of_along_pos (h.along_pos x hx), ← toRat_abs]
    exact neg_le_neg_iff.mp hle

theorem harmonicScale_pos : 0 < toRat (harmonicScale xs) := by
  obtain ⟨-, ⟨x, hx, hscale⟩, -⟩ := h.harmonicScale_spec
  rw [hscale]
  exact h.along_pos x hx

theorem along_reciprocal (hx : x ∈ xs) : along sign (harmonicScale xs / x) =
    clamped (rounded (toRat (harmonicScale xs) / along sign x)) :=
  along_div sign h.harmonicScale_spec.1 (h.isFinite x hx)
    (toRat_ne_zero_of_along_pos (h.along_pos x hx))

theorem isNaN_reciprocal (hx : x ∈ xs) : (harmonicScale xs / x).isNaN = false :=
  isNaN_div h.harmonicScale_spec.1 (h.isFinite x hx) (toRat_ne_zero_of_along_pos (h.along_pos x hx))

theorem isBetween_reciprocal (hx : x ∈ xs) : IsBetween sign 0 1 (harmonicScale xs / x) := by
  have hpos := h.along_pos x hx
  refine .of_rounded (by norm_num) (h.isNaN_reciprocal hx) (h.along_reciprocal hx) ?_ ?_
  · rw [Nat.cast_zero]
    exact div_nonneg h.harmonicScale_pos.le hpos.le
  · rw [Nat.cast_one, div_le_one hpos]
    exact h.harmonicScale_spec.2.2 x hx

/-- The reciprocal of a smallest number is one. -/
theorem isBetween_reciprocal_of_eq (hx : x ∈ xs) (hscale : toRat (harmonicScale xs) = along sign x) :
    IsBetween sign 1 1 (harmonicScale xs / x) := by
  have hratio : toRat (harmonicScale xs) / along sign x = 1 := by
    rw [hscale, div_self (h.along_pos x hx).ne']
  refine .of_rounded (by norm_num) (h.isNaN_reciprocal hx) (h.along_reciprocal hx) ?_ ?_
  · rw [hratio, Nat.cast_one]
  · rw [hratio, Nat.cast_one]

theorem exists_unit_reciprocal : ∃ x ∈ xs, along sign (harmonicScale xs / x) = 1 := by
  obtain ⟨-, ⟨x, hx, hscale⟩, -⟩ := h.harmonicScale_spec
  have hunit := h.isBetween_reciprocal_of_eq hx hscale
  exact ⟨x, hx, le_antisymm (by simpa using hunit.along_le) (by simpa using hunit.le_along)⟩

theorem isBetween_of_mem_scaledReciprocals (hy : y ∈ scaledReciprocals xs) : IsBetween sign 0 1 y := by
  obtain ⟨x, hx, rfl⟩ := List.mem_map.mp hy
  exact h.isBetween_reciprocal hx

/-- No sum on the way counts more than its terms. -/
theorem isBetween_sumOf_take {k : Nat} (hk : k ≤ xs.length) :
    IsBetween sign 0 k (sumOf ((scaledReciprocals xs).take k)) := by
  have hlength : ((scaledReciprocals xs).take k).length = k := by
    rw [List.length_take, scaledReciprocals, List.length_map, min_eq_left hk]
  have hsum := IsBetween.sumOf
    (fun y hy => h.isBetween_of_mem_scaledReciprocals (List.mem_of_mem_take hy))
    (by rw [hlength, Nat.mul_one]; exact hk.trans h.length_le)
  rwa [hlength, Nat.mul_zero, Nat.mul_one] at hsum

theorem isBetween_sumOf : IsBetween sign 1 xs.length (sumOf (scaledReciprocals xs)) := by
  have hall : (scaledReciprocals xs).take xs.length = scaledReciprocals xs := by
    rw [List.take_of_length_le]
    rw [scaledReciprocals, List.length_map]
  have hsum := h.isBetween_sumOf_take le_rfl
  rw [hall] at hsum
  refine ⟨hsum.isFinite, ?_, hsum.along_le⟩
  obtain ⟨x, hx, hunit⟩ := h.exists_unit_reciprocal
  rw [Nat.cast_one, ← hunit]
  exact along_le_along_sumOf (fun y hy => (h.isBetween_of_mem_scaledReciprocals hy).isOutward)
    (List.mem_map_of_mem hx)

/-- The larger the sum, the smaller the mean. -/
theorem isBetween_scaledMean {low high : Nat}
    (hsum : IsBetween sign low xs.length (sumOf (scaledReciprocals xs))) (hpos : 0 < low)
    (hhigh : xs.length ≤ high * low) (hbound : high ≤ 2 ^ 53) :
    IsBetween sign 1 high (scaledMean xs) := by
  obtain ⟨hcount, hvalue⟩ := toRat_ofNat h.length_le
  have hlow : (0 : ℚ) < low := by exact_mod_cast hpos
  have hsumpos : 0 < along sign (sumOf (scaledReciprocals xs)) := hlow.trans_le hsum.le_along
  have hne := toRat_ne_zero_of_along_pos hsumpos
  have hquotient : along sign (scaledMean xs) =
      clamped (rounded (xs.length / along sign (sumOf (scaledReciprocals xs)))) := by
    rw [scaledMean, along_div sign hcount hsum.isFinite hne, hvalue]
  refine .of_rounded hbound (isNaN_div hcount hsum.isFinite hne) hquotient ?_ ?_
  · rw [Nat.cast_one, one_le_div hsumpos]
    exact hsum.along_le
  · rw [div_le_iff₀ hsumpos]
    calc (xs.length : ℚ)
        ≤ high * low := by exact_mod_cast hhigh
      _ ≤ high * along sign (sumOf (scaledReciprocals xs)) :=
          mul_le_mul_of_nonneg_left hsum.le_along high.cast_nonneg

theorem isBetween_scaledMean_length : IsBetween sign 1 xs.length (scaledMean xs) :=
  h.isBetween_scaledMean h.isBetween_sumOf one_pos (Nat.mul_one _).ge h.length_le

theorem along_harmonicMeanOf : along sign (harmonicMeanOf xs) =
    clamped (rounded (along sign (scaledMean xs) * toRat (harmonicScale xs))) := by
  rw [harmonicMeanOf_eq]
  exact along_mul sign h.isBetween_scaledMean_length.isFinite h.harmonicScale_spec.1

theorem isNaN_harmonicMeanOf : (harmonicMeanOf xs).isNaN = false :=
  isNaN_mul h.isBetween_scaledMean_length.isFinite h.harmonicScale_spec.1

/-- The final product overflows, or the mean is finite. -/
theorem beyond_le_of_not_isFinite (hinfinite : (harmonicMeanOf xs).isFinite = false) :
    beyond ≤ rounded (along sign (scaledMean xs) * toRat (harmonicScale xs)) := by
  have hnonneg : 0 ≤ along sign (scaledMean xs) * toRat (harmonicScale xs) :=
    mul_nonneg (h.isBetween_scaledMean_length.isOutward.nonneg) h.harmonicScale_pos.le
  have hend := abs_toRat_of_not_isFinite h.isNaN_harmonicMeanOf hinfinite
  rw [← abs_along sign, h.along_harmonicMeanOf, clamped_of_nonneg (rounded_nonneg hnonneg),
    abs_of_nonneg (le_min (rounded_nonneg hnonneg) beyond_pos.le), min_eq_right_iff] at hend
  exact hend

/-- The mean lies at least as far out as the smallest number. -/
theorem harmonicScale_le_along : toRat (harmonicScale xs) ≤ along sign (harmonicMeanOf xs) := by
  obtain ⟨hfinite, -, -⟩ := h.harmonicScale_spec
  have hone := h.isBetween_scaledMean_length.le_along
  rw [Nat.cast_one] at hone
  rw [h.along_harmonicMeanOf, ← clamped_rounded_toRat hfinite]
  refine clamped_mono (rounded_mono ?_)
  rw [clamped_rounded_toRat hfinite]
  exact le_mul_of_one_le_left h.harmonicScale_pos.le hone

/-- Equal numbers are their own mean. -/
theorem harmonicMeanOf_of_forall_eq (hx : x ∈ xs) (hequal : ∀ y ∈ xs, y = x) : harmonicMeanOf xs = x := by
  obtain ⟨hfinite, ⟨y, hy, hscale⟩, -⟩ := h.harmonicScale_spec
  rw [hequal y hy] at hscale
  have hterms : ∀ z ∈ scaledReciprocals xs, IsBetween sign 1 1 z := by
    intro z hz
    obtain ⟨y, hy, rfl⟩ := List.mem_map.mp hz
    rw [hequal y hy]
    exact h.isBetween_reciprocal_of_eq hx hscale
  have hlength : (scaledReciprocals xs).length = xs.length := by
    rw [scaledReciprocals, List.length_map]
  have hsum := IsBetween.sumOf hterms (by rw [hlength, Nat.mul_one]; exact h.length_le)
  rw [hlength, Nat.mul_one] at hsum
  have hmean := h.isBetween_scaledMean hsum h.one_le_length (Nat.one_mul _).ge (by norm_num)
  have hone : along sign (scaledMean xs) = 1 :=
    le_antisymm (by simpa using hmean.along_le) (by simpa using hmean.le_along)
  have hsame : along sign (harmonicMeanOf xs) = along sign x := by
    rw [h.along_harmonicMeanOf, hone, one_mul, clamped_rounded_toRat hfinite, hscale]
  have hmeanfinite : (harmonicMeanOf xs).isFinite = true := by
    rw [isFinite_iff h.isNaN_harmonicMeanOf, ← abs_along sign, hsame, abs_along,
      ← isFinite_iff (isNaN_of_isFinite (h.isFinite x hx))]
    exact h.isFinite x hx
  exact eq_of_along_eq (h.isFinite x hx) hmeanfinite (h.along_pos x hx) hsame

end IsOneSigned

/-! ## Means of sets -/

def nearEnd : Sign → Extremum
  | .positive => .smallest
  | .negative => .largest

/-- The steps of the mean up to the last product, for numbers in one direction. -/
structure ScalesSafely (sign : Sign) (xs : List Float) : Prop where
  reciprocals : ∀ x ∈ xs, IsBetween sign 0 1 (harmonicScale xs / x)
  unit : ∃ x ∈ xs, along sign (harmonicScale xs / x) = 1
  running : ∀ k ≤ xs.length, IsBetween sign 0 k (sumOf ((scaledReciprocals xs).take k))
  total : IsBetween sign 1 xs.length (sumOf (scaledReciprocals xs))
  quotient : IsBetween sign 1 xs.length (scaledMean xs)

theorem IsOneSigned.scalesSafely (h : IsOneSigned sign xs) : ScalesSafely sign xs where
  reciprocals _ hx := h.isBetween_reciprocal hx
  unit := h.exists_unit_reciprocal
  running _ hk := h.isBetween_sumOf_take hk
  total := h.isBetween_sumOf
  quotient := h.isBetween_scaledMean_length

namespace Reduction

section OneSign

variable (hs : s.WellFormed) (h : IsOneSigned sign s.definedValues)
include h

theorem eval_harmonicMean : harmonicMean.eval s = .ofFloat (harmonicMeanOf s.definedValues) := by
  have haccepts : ∀ x ∈ s.definedValues, harmonicMean.accepts x = true := by
    intro x hx
    have hne := toRat_ne_zero_of_along_pos (h.along_pos x hx)
    rw [accepts, Bool.not_eq_true', ← Bool.not_eq_true,
      beq_iff (isNaN_of_isFinite (h.isFinite x hx)) isNaN_zero, toRat_zero]
    exact hne
  have hempty : s.definedValues.isEmpty = false := by simpa using h.nonempty
  have hall : s.definedValues.all harmonicMean.accepts = true := List.all_eq_true.mpr haccepts
  simp [Reduction.eval, hempty, hall, ofNumbers]

theorem eval_harmonicMean_eq_undefined_iff : harmonicMean.eval s = .undefined ↔
    beyond ≤ rounded (along sign (scaledMean s.definedValues) *
      toRat (harmonicScale s.definedValues)) := by
  rw [eval_harmonicMean h, Value.ofFloat]
  constructor
  · intro hundefined
    split at hundefined
    · cases hundefined
    · next hinfinite => exact h.beyond_le_of_not_isFinite (by simpa using hinfinite)
  · intro hbeyond
    rw [if_neg]
    rw [isFinite_iff h.isNaN_harmonicMeanOf, ← abs_along sign, h.along_harmonicMeanOf,
      clamped_of_beyond_le hbeyond, abs_of_pos beyond_pos]
    exact lt_irrefl _

include hs

/-- The mean lies no nearer to zero than the number that is nearest to it. -/
theorem exists_nearest_bounds (heval : harmonicMean.eval s = .defined mean) :
    ∃ nearest, (nearEnd sign).reduction.eval s = .defined nearest ∧ (nearEnd sign).Bounds nearest mean := by
  obtain ⟨-, rfl, hfinite⟩ := of_eval_eq_defined heval
  obtain ⟨nearest, hnearest, hmem, hbounds⟩ := hs.exists_extremum h.nonempty (nearEnd sign)
  refine ⟨nearest, hnearest, ?_⟩
  obtain ⟨-, ⟨x, hx, hscale⟩, -⟩ := h.harmonicScale_spec
  have hnan := isNaN_of_isFinite (h.isFinite nearest hmem)
  have hxbound := hbounds x hx
  have hmean : along sign x ≤ along sign (harmonicMeanOf s.definedValues) :=
    hscale ▸ h.harmonicScale_le_along
  rw [Extremum.bounds_iff _ hnan (isNaN_of_isFinite (h.isFinite x hx))] at hxbound
  rw [Extremum.bounds_iff _ hnan (isNaN_of_isFinite hfinite)]
  cases sign with
  | positive =>
      rw [along_positive, along_positive] at hmean
      exact (neg_le_neg hmean).trans hxbound
  | negative =>
      rw [along_negative, along_negative] at hmean
      exact (neg_le_neg_iff.mp hmean).trans hxbound

end OneSign

/--
The harmonic mean of a set with defined values of one sign: the steps up to the last product stay in the
range of exact whole numbers, the mean is undefined exactly if that product overflows, and it lies beyond
the value nearest to zero.  The mean of values that are all the same is that value, whatever its magnitude.
-/
theorem harmonicMean_of_one_sign (hs : Reachable s) (hsome : s.definedValues ≠ [])
    (hcount : s.definedValues.length ≤ 2 ^ 53) :
    (∀ sign, (∀ x ∈ s.definedValues, HasSign sign x) →
      ScalesSafely sign s.definedValues ∧
      (harmonicMean.eval s = .undefined ↔
        beyond ≤ rounded (along sign (scaledMean s.definedValues) *
          toRat (harmonicScale s.definedValues))) ∧
      ∀ mean, harmonicMean.eval s = .defined mean →
        mean = scaledMean s.definedValues * harmonicScale s.definedValues ∧
        ∃ nearest, (nearEnd sign).reduction.eval s = .defined nearest ∧
          (nearEnd sign).Bounds nearest mean) ∧
    ∀ x, (x == 0.0) = false → (∀ y ∈ s.definedValues, y = x) → harmonicMean.eval s = .defined x := by
  have hfinite : ∀ x ∈ s.definedValues, x.isFinite = true :=
    fun x => hs.wellFormed.isFinite_of_mem_definedValues
  have honeSigned : ∀ sign, (∀ x ∈ s.definedValues, HasSign sign x) → IsOneSigned sign s.definedValues := by
    intro sign hsigned
    refine ⟨hsome, hcount, hfinite, fun x hx => ?_⟩
    exact (hasSign_iff (isNaN_of_isFinite (hfinite x hx))).mp (hsigned x hx)
  constructor
  · intro sign hsigned
    have h := honeSigned sign hsigned
    refine ⟨h.scalesSafely, eval_harmonicMean_eq_undefined_iff h, fun mean heval => ⟨?_, ?_⟩⟩
    · exact (of_eval_eq_defined heval).2.1
    · exact exists_nearest_bounds hs.wellFormed h heval
  · intro x hne hequal
    obtain ⟨y, hy⟩ := List.exists_mem_of_ne_nil _ hsome
    obtain rfl : y = x := hequal y hy
    obtain ⟨sign, hsigned⟩ := exists_hasSign (hfinite y hy) hne
    have h := honeSigned sign fun z hz => hequal z hz ▸ hsigned
    rw [eval_harmonicMean h, h.harmonicMeanOf_of_forall_eq hy hequal,
      Extremum.ofFloat_of_isFinite (hfinite y hy)]

theorem harmonicMean_of_two_rates :
    let s := ((bare "WA" .well).push "P1" (.defined 2.0)).push "P2" (.defined 6.0)
    Reachable s ∧ (∀ x ∈ s.definedValues, HasSign .positive x) ∧ ScalesSafely .positive s.definedValues ∧
      harmonicMean.eval s = .defined 3.0 ∧
      ∃ nearest, minimum.eval s = .defined nearest ∧ nearest ≤ 3.0 := by
  intro s
  have hs : KeyedSet.ofEntries "WA" .well [("P1", .defined 2.0), ("P2", .defined 6.0)] = .ok s := rfl
  have hvalues : s.definedValues = [2.0, 6.0] := rfl
  have hsigned : ∀ x ∈ s.definedValues, HasSign .positive x := by
    rw [hvalues]
    simp only [List.forall_mem_cons, HasSign]
    exact ⟨by decide +kernel, by decide +kernel, by simp⟩
  have heval : harmonicMean.eval s = .defined 3.0 := by decide +kernel
  obtain ⟨hsafe, -, hmean⟩ := (harmonicMean_of_one_sign (.ofEntries hs) (by simp [hvalues])
    (by simp [hvalues])).1 .positive hsigned
  exact ⟨.ofEntries hs, hsigned, hsafe, heval, (hmean 3.0 heval).2⟩

end Reduction

end Quantities
