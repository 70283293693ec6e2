import Mathlib
import Quantities.Proofs.Binary64.SquareRoot
import Quantities.Proofs.Reduction.Extrema
import Quantities.Proofs.Reduction.Sums

/-!
# Definiteness of the norms

The norms of a set are not negative.  The sum of magnitudes and the largest magnitude keep every number
other than zero visible, however small it is and however many there are.  The Euclidean norm sums squares,
and a square may be too small for a double although the number is not.
-/

namespace Quantities

open Binary64 KeyedSet

namespace Reduction

variable {s : KeyedSet} {norm : Reduction} {x v : Float}

def norms : List Reduction :=
  [.oneNorm, .twoNorm, .maxNorm]

/-- A number that leaves a norm at zero: zero itself, and for the Euclidean norm a number with a square of
at most half the smallest double. -/
def TakesForZero : Reduction → Float → Prop
  | .twoNorm, v => toRat v ^ 2 ≤ 2 ^ (-1075 : ℤ)
  | _, v => (v == 0.0) = true

theorem takesForZero_iff (hnorm : norm ≠ .twoNorm) (hv : v.isFinite = true) :
    norm.TakesForZero v ↔ toRat v = 0 := by
  have hsame : norm.TakesForZero v = ((v == 0.0) = true) := by
    cases norm <;> first | rfl | exact absurd rfl hnorm
  rw [hsame, beq_iff (isNaN_of_isFinite hv) isNaN_zero, toRat_zero]

/-! ## Squares -/

theorem isOutward_square (hv : v.isFinite = true) : IsOutward .positive (v * v) := by
  refine ⟨isNaN_mul hv hv, ?_⟩
  rw [along_mul .positive hv hv, along_positive, clamped_of_nonneg]
  · exact le_min (rounded_nonneg (mul_self_nonneg _)) beyond_pos.le
  · exact rounded_nonneg (mul_self_nonneg _)

theorem toRat_square_eq_zero_iff (hv : v.isFinite = true) :
    toRat (v * v) = 0 ↔ toRat v ^ 2 ≤ 2 ^ (-1075 : ℤ) := by
  rw [toRat_mul hv hv, clamped_eq_zero_iff, rounded_eq_zero_iff, ← sq, abs_of_nonneg (sq_nonneg _)]

/-! ## Norms of numbers -/

section Numbers

variable {xs : List Float} (hxs : ∀ v ∈ xs, v.isFinite = true)
include hxs

theorem oneNormOf_spec : IsOutward .positive (oneNormOf xs) ∧
    (toRat (oneNormOf xs) = 0 ↔ ∀ v ∈ xs, TakesForZero .oneNorm v) := by
  have hterms : ∀ y ∈ xs.map Float.abs, IsOutward .positive y := by
    intro y hy
    obtain ⟨v, hv, rfl⟩ := List.mem_map.mp hy
    exact isOutward_abs (isNaN_of_isFinite (hxs v hv))
  refine ⟨isOutward_sumOf hterms, (toRat_sumOf_eq_zero_iff hterms).trans ?_⟩
  rw [List.forall_mem_map]
  refine forall₂_congr fun v hv => ?_
  rw [toRat_abs, abs_eq_zero, takesForZero_iff (by decide) (hxs v hv)]

theorem twoNormOf_spec : IsOutward .positive (twoNormOf xs) ∧
    (toRat (twoNormOf xs) = 0 ↔ ∀ v ∈ xs, TakesForZero .twoNorm v) := by
  have hterms : ∀ y ∈ xs.map (fun v => v * v), IsOutward .positive y := by
    intro y hy
    obtain ⟨v, hv, rfl⟩ := List.mem_map.mp hy
    exact isOutward_square (hxs v hv)
  obtain ⟨houtward, hroot⟩ := sqrt_spec (isOutward_sumOf hterms)
  refine ⟨houtward, hroot.trans ((toRat_sumOf_eq_zero_iff hterms).trans ?_)⟩
  rw [List.forall_mem_map]
  exact forall₂_congr fun v hv => toRat_square_eq_zero_iff (hxs v hv)

theorem maxNormOf_definite (hsome : xs ≠ []) : IsOutward .positive (maxNormOf xs) ∧
    (toRat (maxNormOf xs) = 0 ↔ ∀ v ∈ xs, TakesForZero .maxNorm v) := by
  obtain ⟨hfinite, ⟨y, hy, hattained⟩, hbounds⟩ := maxNormOf_spec hsome hxs
  have htakes : ∀ v ∈ xs, (TakesForZero .maxNorm v ↔ toRat v = 0) :=
    fun v hv => takesForZero_iff (by decide) (hxs v hv)
  refine ⟨⟨isNaN_of_isFinite hfinite, ?_⟩, ?_, ?_⟩
  · rw [along_positive, hattained]
    exact abs_nonneg _
  · intro hzero v hv
    have hle := hbounds v hv
    rw [hzero] at hle
    exact (htakes v hv).mpr (abs_nonpos_iff.mp hle)
  · intro hall
    rw [hattained, (htakes y hy).mp (hall y hy), abs_zero]

theorem ofNumbers_norm (hsome : xs ≠ []) (hnorm : norm ∈ norms) :
    IsOutward .positive (norm.ofNumbers xs) ∧
      (toRat (norm.ofNumbers xs) = 0 ↔ ∀ v ∈ xs, norm.TakesForZero v) := by
  fin_cases hnorm
  · exact oneNormOf_spec hxs
  · exact twoNormOf_spec hxs
  · exact maxNormOf_definite hxs hsome

end Numbers

/-! ## Norms of sets -/

/--
A defined norm is not negative.  It is zero exactly if the norm takes every defined value of the set for
zero: the one and the maximum norm only for sets of zeros, the Euclidean norm also for sets of numbers with
squares that vanish.
-/
theorem norms_definite (hs : Reachable s) (hnorm : norm ∈ norms) (heval : norm.eval s = .defined x) :
    0.0 ≤ x ∧ ((x == 0.0) = true ↔ ∀ v ∈ s.definedValues, norm.TakesForZero v) := by
  obtain ⟨hsome, rfl, hfinite⟩ := of_eval_eq_defined heval
  obtain ⟨houtward, hzero⟩ :=
    ofNumbers_norm (fun v => hs.wellFormed.isFinite_of_mem_definedValues) hsome hnorm
  have hnan := isNaN_of_isFinite hfinite
  constructor
  · rw [le_iff isNaN_zero hnan, toRat_zero, ← along_positive]
    exact houtward.nonneg
  · rw [beq_iff hnan isNaN_zero, toRat_zero]
    exact hzero

theorem norms_definite_of_difference :
    let s := ((bare "WA" .well).push "P1" (.defined (-3.0))).push "P2" (.defined 4.0)
    Reachable s ∧ twoNorm ∈ norms ∧ twoNorm.eval s = .defined 5.0 ∧ (0.0 : Float) ≤ 5.0 ∧
      ¬ ∀ v ∈ s.definedValues, twoNorm.TakesForZero v := by
  intro s
  have hs : KeyedSet.ofEntries "WA" .well [("P1", .defined (-3.0)), ("P2", .defined 4.0)] = .ok s := rfl
  have hnorm : twoNorm ∈ norms := by decide
  have heval : twoNorm.eval s = .defined 5.0 := by decide +kernel
  obtain ⟨hnonneg, hzero⟩ := norms_definite (.ofEntries hs) hnorm heval
  exact ⟨.ofEntries hs, hnorm, heval, hnonneg, fun hall => absurd (hzero.mpr hall) (by decide +kernel)⟩

/-- The square of a small number vanishes, and the Euclidean norm with it. -/
theorem twoNorm_of_vanishing_square : ¬ ∀ s : KeyedSet, Reachable s → s.definedValues ≠ [] →
    ∀ norm ∈ norms, ∀ x, norm.eval s = .defined x →
      0.0 ≤ x ∧ ((x == 0.0) = true → ∀ v ∈ s.definedValues, (v == 0.0) = true) := by
  intro hdefinite
  let s := (bare "WA" .well).push "P1" (.defined (.ofBits 0x16687e92154ef7ac))
  have hs : KeyedSet.ofEntries "WA" .well [("P1", .defined (.ofBits 0x16687e92154ef7ac))] = .ok s := rfl
  have hvalues : s.definedValues = [.ofBits 0x16687e92154ef7ac] := rfl
  have heval : twoNorm.eval s = .defined 0.0 := by decide +kernel
  have hzero := (hdefinite s (.ofEntries hs) (by simp [hvalues]) twoNorm (by decide) 0.0 heval).2 rfl
  rw [hvalues] at hzero
  exact absurd (hzero _ List.mem_cons_self) (by decide +kernel)

end Reduction

end Quantities
