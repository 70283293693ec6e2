import Mathlib
import Quantities.Proofs.KeyedSet.Equality
import Quantities.Proofs.Reduction.Extrema
import Quantities.Proofs.Transform.Pointwise

/-!
# The range check

Applying the range of valid settings keeps the values whose magnitude is at most the range, bit for bit, and
makes all others undefined.  The largest magnitude of a set decides whether anything is lost, and several
ranges act like the smallest of them.
-/

namespace Quantities

open Binary64

def Value.fits (range : Float) : Value → Bool
  | .defined x => x.abs ≤ range
  | .undefined => false

def Value.AtMost (range : Float) : Value → Prop
  | .defined x => x ≤ range
  | .undefined => True

namespace Settings

open KeyedSet

/-- A valid range is a positive number or infinity. -/
theorem range_of_validate {settings : Settings} (h : settings.validate = .ok ()) :
    settings.range.isNaN = false ∧ ¬settings.range ≤ 0.0 := by
  unfold validate at h
  split at h
  · cases h
  · split at h
    · cases h
    · next hrange =>
      rw [Bool.not_eq_true, Bool.or_eq_false_iff, decide_eq_false_iff_not] at hrange
      exact hrange

/-- The one of two settings with the smaller range, the first one of two equal ranges. -/
def narrower (settings other : Settings) : Settings :=
  if settings.range ≤ other.range then settings else other

/-! ## Values -/

section Values

variable {settings : Settings} {value : Value}

theorem inRange_eq (hrange : settings.range.isNaN = false) (h : value.IsNormal) :
    settings.inRange value = if value.fits settings.range then value else .undefined := by
  cases value with
  | undefined => rfl
  | defined x =>
      have hx : x.isFinite = true := h
      have hnan : x.abs.isNaN = false := isNaN_of_isFinite (isFinite_abs hx)
      have hover : settings.range < x.abs ↔ ¬x.abs ≤ settings.range := by
        rw [lt_iff hrange hnan, le_iff hnan hrange, not_le]
      simp only [inRange, Value.fits, decide_eq_true_eq, hover, Extremum.ofFloat_of_isFinite hx, ite_not]

/-- A value that passes the narrower range passes the wider one. -/
theorem fits_of_le {other : Settings} (hle : settings.range ≤ other.range) (h : value.IsNormal)
    (hfits : value.fits settings.range = true) : value.fits other.range = true := by
  obtain ⟨hrange, hother⟩ := isNaN_of_le hle
  cases value with
  | undefined => cases hfits
  | defined x =>
      have hnan : x.abs.isNaN = false := isNaN_of_isFinite (isFinite_abs h)
      simp only [Value.fits, decide_eq_true_eq] at hfits ⊢
      rw [le_iff hrange hother] at hle
      rw [le_iff hnan hrange] at hfits
      rw [le_iff hnan hother]
      exact hfits.trans hle

theorem fits_onValue_magnitude (range : Float) (h : value.IsNormal) :
    (Transform.magnitude.onValue value).fits range = value.fits range := by
  cases value with
  | undefined => rfl
  | defined x =>
      have hagain : x.abs.abs = x.abs := by
        apply eq_of_unpack_eq
        rw [unpack_abs, unpack_abs]
        cases x.toModel.unpack <;> rfl
      rw [Transform.onValue, Extremum.ofFloat_of_isFinite (isFinite_abs h), Value.fits, Value.fits, hagain]

theorem inRange_inRange {other : Settings} (hle : settings.range ≤ other.range) (h : value.IsNormal) :
    other.inRange (settings.inRange value) = settings.inRange value ∧
      settings.inRange (other.inRange value) = settings.inRange value := by
  obtain ⟨hrange, hother⟩ := isNaN_of_le hle
  rw [inRange_eq hrange h, inRange_eq hother h]
  by_cases hfits : value.fits settings.range = true
  · have hwider := fits_of_le hle h hfits
    simp only [hfits, hwider, if_true, inRange_eq hrange h, inRange_eq hother h, true_and]
  · rw [if_neg hfits]
    refine ⟨rfl, ?_⟩
    split
    · rw [inRange_eq hrange h, if_neg hfits]
    · rfl

theorem inRange_onValue_magnitude (hrange : settings.range.isNaN = false) (h : value.IsNormal) :
    settings.inRange (Transform.magnitude.onValue value) =
      Transform.magnitude.onValue (settings.inRange value) := by
  rw [inRange_eq hrange (Transform.isNormal_onValue rfl value), inRange_eq hrange h,
    fits_onValue_magnitude _ h]
  split <;> rfl

end Values

/-! ## Sets -/

section Sets

variable {settings : Settings} {s : KeyedSet}

theorem values_applyRange (settings : Settings) (s : KeyedSet) :
    (settings.applyRange s).values = s.values.map settings.inRange := by
  rw [applyRange_eq_mapValues, values_mapValues_of_isNormal settings.isNormal_inRange]

theorem sameFrame_applyRange (settings : Settings) (s : KeyedSet) :
    SameFrame (settings.applyRange s) s :=
  ⟨rfl, rfl, rfl⟩

theorem wellFormed_applyRange (hs : s.WellFormed) (settings : Settings) :
    (settings.applyRange s).WellFormed :=
  hs.mapValues _

/-- Keeps the value of a key bit for bit if it fits. -/
theorem get_applyRange (hs : s.WellFormed) (hrange : settings.range.isNaN = false) (key : String) :
    (settings.applyRange s).get key =
      if (s.get key).fits settings.range then s.get key else .undefined := by
  have hget : ∀ key ∈ s.keys, (settings.applyRange s).get key = settings.inRange (s.get key) := by
    intro key hkey
    rw [applyRange_eq_mapValues, hs.get_mapValues_of_isNormal settings.isNormal_inRange hkey]
  rw [← inRange_eq hrange (hs.isNormal_get key)]
  exact (wellFormed_applyRange hs settings).get_of_keys_eq hs rfl settings.inRange rfl hget key

/-- The narrower of two ranges decides, whichever is applied first. -/
theorem applyRange_applyRange {other : Settings} (hs : s.WellFormed)
    (hle : settings.range ≤ other.range) :
    other.applyRange (settings.applyRange s) = settings.applyRange s ∧
      settings.applyRange (other.applyRange s) = settings.applyRange s := by
  have hnarrow := wellFormed_applyRange hs settings
  have hwide := wellFormed_applyRange hs other
  constructor
  · refine (sameFrame_applyRange other _).eq_of_values_eq (wellFormed_applyRange hnarrow other)
      hnarrow ?_
    rw [values_applyRange, values_applyRange, List.map_map]
    exact List.map_congr_left fun value hvalue =>
      (inRange_inRange hle (hs.isNormal value hvalue)).1
  · have hframe := (sameFrame_applyRange settings (other.applyRange s)).trans
      ((sameFrame_applyRange other s).trans (sameFrame_applyRange settings s).symm)
    refine hframe.eq_of_values_eq (wellFormed_applyRange hwide settings) hnarrow ?_
    rw [values_applyRange, values_applyRange, values_applyRange, List.map_map]
    exact List.map_congr_left fun value hvalue =>
      (inRange_inRange hle (hs.isNormal value hvalue)).2

theorem applyRange_narrower {other : Settings} (hs : s.WellFormed)
    (hrange : settings.range.isNaN = false) (hother : other.range.isNaN = false) :
    other.applyRange (settings.applyRange s) = (settings.narrower other).applyRange s ∧
      settings.applyRange (other.applyRange s) = (settings.narrower other).applyRange s := by
  unfold narrower
  split
  · next hle => exact applyRange_applyRange hs hle
  · next hgt =>
    have hle : other.range ≤ settings.range := by
      rw [le_iff hrange hother, not_le] at hgt
      exact (le_iff hother hrange).mpr hgt.le
    exact (applyRange_applyRange hs hle).symm

theorem applyRange_magnitude (hs : s.WellFormed) (hrange : settings.range.isNaN = false) :
    settings.applyRange (Transform.magnitude.eval s) =
      Transform.magnitude.eval (settings.applyRange s) := by
  have hframe := (sameFrame_applyRange settings (Transform.magnitude.eval s)).trans
    ((Transform.sameFrame_eval .magnitude s).trans ((sameFrame_applyRange settings s).symm.trans
      (Transform.sameFrame_eval .magnitude _).symm))
  refine hframe.eq_of_values_eq (wellFormed_applyRange (hs.transform .magnitude) settings)
    ((wellFormed_applyRange hs settings).transform .magnitude) ?_
  rw [values_applyRange, Transform.values_eval_of_isPointwise rfl,
    Transform.values_eval_of_isPointwise rfl, values_applyRange, List.map_map, List.map_map]
  exact List.map_congr_left fun value hvalue =>
    inRange_onValue_magnitude hrange (hs.isNormal value hvalue)

/-! ## Extrema -/

theorem maxNorm_atMost_iff (hs : s.WellFormed) (hrange : settings.range.isNaN = false) :
    (Reduction.maxNorm.eval s).AtMost settings.range ↔
      ∀ x ∈ s.definedValues, x.abs ≤ settings.range := by
  by_cases hvalues : s.definedValues = []
  · rw [Reduction.eval_of_none_defined _ hvalues, hvalues]
    exact iff_of_true trivial fun x hx => absurd hx List.not_mem_nil
  · obtain ⟨norm, hnorm, hfinite, ⟨x, hx, hattained⟩, hbounds⟩ := hs.exists_maxNorm hvalues
    have habs : ∀ {y}, y ∈ s.definedValues → y.abs.isNaN = false := fun hy =>
      isNaN_of_isFinite (isFinite_abs (hs.isFinite_of_mem_definedValues hy))
    rw [hnorm, Value.AtMost, le_iff (isNaN_of_isFinite hfinite) hrange]
    constructor
    · intro hle y hy
      rw [le_iff (habs hy) hrange, toRat_abs]
      exact (hbounds y hy).trans hle
    · intro hall
      have hle := hall x hx
      rw [le_iff (habs hx) hrange, toRat_abs] at hle
      rw [hattained]
      exact hle

theorem abs_le_of_mem_definedValues_applyRange (hs : s.WellFormed)
    (hrange : settings.range.isNaN = false) :
    ∀ x ∈ (settings.applyRange s).definedValues, x.abs ≤ settings.range := by
  intro x hx
  obtain ⟨value, hvalue, hnumber⟩ := List.mem_filterMap.mp hx
  rw [values_applyRange] at hvalue
  obtain ⟨old, hold, rfl⟩ := List.mem_map.mp hvalue
  rw [inRange_eq hrange (hs.isNormal old hold)] at hnumber
  split at hnumber
  · next hfits =>
    cases old with
    | undefined => cases hfits
    | defined y =>
        cases hnumber
        exact of_decide_eq_true hfits
  · cases hnumber

/-- The bounds of a set whose numbers are all in the range. -/
theorem abs_extremum_atMost (hs : s.WellFormed) (hall : ∀ x ∈ s.definedValues, x.abs ≤ settings.range)
    (extremum : Extremum) :
    ((extremum.reduction.eval s).map Float.abs).AtMost settings.range := by
  by_cases hvalues : s.definedValues = []
  · rw [Reduction.eval_of_none_defined _ hvalues]
    trivial
  · obtain ⟨m, hm, hmem, -⟩ := hs.exists_extremum hvalues extremum
    have hfinite := isFinite_abs (hs.isFinite_of_mem_definedValues hmem)
    rw [hm, Value.map, Value.andThen, Extremum.ofFloat_of_isFinite hfinite]
    exact hall m hmem

/-- Nothing is lost exactly when the largest magnitude is in the range. -/
theorem applyRange_beq_iff (hs : s.WellFormed) (hrange : settings.range.isNaN = false) :
    (settings.applyRange s == s) = true ↔ (Reduction.maxNorm.eval s).AtMost settings.range := by
  have hresult := wellFormed_applyRange hs settings
  rw [maxNorm_atMost_iff hs hrange, hresult.beq_iff_matches hs]
  constructor
  · intro hmatches x hx
    obtain ⟨value, hvalue, hnumber⟩ := List.mem_filterMap.mp hx
    have hsame := hmatches.sameNumber
    rw [values_applyRange, List.forall₂_map_left_iff, List.forall₂_same] at hsame
    have hkept := hsame value hvalue
    rw [inRange_eq hrange (hs.isNormal value hvalue)] at hkept
    cases value with
    | undefined => cases hnumber
    | defined y =>
        cases hnumber
        split at hkept
        · next hfits => exact of_decide_eq_true hfits
        · cases hkept
  · intro hall
    have hkept : settings.applyRange s = s := by
      refine (sameFrame_applyRange settings s).eq_of_values_eq hresult hs ?_
      rw [values_applyRange, List.map_congr_left (g := id) fun value hvalue => ?_, List.map_id]
      rw [inRange_eq hrange (hs.isNormal value hvalue)]
      cases value with
      | undefined => rfl
      | defined x =>
          exact if_pos (decide_eq_true (hall x (List.mem_filterMap.mpr ⟨_, hvalue, rfl⟩)))
    rw [hkept]
    exact Matches.refl s

end Sets

/--
The range check filters by magnitude.

- Name, kind and keys stay; a value stays bit for bit if its magnitude is at most the range, and any other
  becomes undefined.
- Filtering again changes nothing, two valid ranges act like the smaller one in either order, and taking
  magnitudes may come first or last.
- The result equals the argument exactly when the largest magnitude is undefined or at most the range, and
  afterwards that holds of the largest magnitude and of the magnitudes of both bounds.
-/
theorem range_filters {settings : Settings} (hvalid : settings.validate = .ok ()) {s : KeyedSet}
    (hs : Reachable s) :
    SameFrame (settings.applyRange s) s ∧
    (∀ key, (settings.applyRange s).get key =
      if (s.get key).fits settings.range then s.get key else .undefined) ∧
    settings.applyRange (settings.applyRange s) = settings.applyRange s ∧
    (∀ other : Settings, other.validate = .ok () →
      other.applyRange (settings.applyRange s) = (settings.narrower other).applyRange s ∧
      settings.applyRange (other.applyRange s) = (settings.narrower other).applyRange s) ∧
    settings.applyRange (Transform.magnitude.eval s) =
      Transform.magnitude.eval (settings.applyRange s) ∧
    ((settings.applyRange s == s) = true ↔ (Reduction.maxNorm.eval s).AtMost settings.range) ∧
    (Reduction.maxNorm.eval (settings.applyRange s)).AtMost settings.range ∧
    ((Reduction.minimum.eval (settings.applyRange s)).map Float.abs).AtMost settings.range ∧
    ((Reduction.maximum.eval (settings.applyRange s)).map Float.abs).AtMost settings.range := by
  have hwell := hs.wellFormed
  have hresult := wellFormed_applyRange hwell settings
  obtain ⟨hrange, -⟩ := range_of_validate hvalid
  have hself : settings.range ≤ settings.range := (le_iff hrange hrange).mpr le_rfl
  have hall := abs_le_of_mem_definedValues_applyRange hwell hrange
  exact ⟨sameFrame_applyRange settings s, get_applyRange hwell hrange,
    (applyRange_applyRange hwell hself).1,
    fun other hother => applyRange_narrower hwell hrange (range_of_validate hother).1,
    applyRange_magnitude hwell hrange, applyRange_beq_iff hwell hrange,
    (maxNorm_atMost_iff hresult hrange).mpr hall, abs_extremum_atMost hresult hall .smallest,
    abs_extremum_atMost hresult hall .largest⟩

theorem range_filters_of_rates :
    let settings : Settings := { range := 2.0 }
    let unbounded : Settings := { range := Binary64.infinity }
    let rates := ((((bare "WA" .well).push "P1" (.defined (-2.0))).push "P2" .undefined).push "P3"
      (.defined 3.0)).push "P4" (.defined (-0.0))
    settings.validate = .ok () ∧ unbounded.validate = .ok () ∧ Reachable rates ∧
      (settings.applyRange rates).get "P1" = .defined (-2.0) ∧
      (settings.applyRange rates).get "P3" = .undefined ∧
      unbounded.applyRange (settings.applyRange rates) = settings.applyRange rates ∧
      (settings.applyRange rates == rates) = false ∧
      (unbounded.applyRange rates == rates) = true := by
  intro settings unbounded rates
  have hsettings : settings.validate = .ok () := by
    unfold validate
    rw [if_neg (by decide +kernel), if_neg (by decide +kernel)]
  have hunbounded : unbounded.validate = .ok () := by
    unfold validate
    rw [if_neg (by decide +kernel), if_neg (by decide +kernel)]
  have hrates : KeyedSet.ofEntries "WA" .well [("P1", .defined (-2.0)), ("P2", .undefined),
      ("P3", .defined 3.0), ("P4", .defined (-0.0))] = .ok rates := rfl
  have hnorm : Reduction.maxNorm.eval rates = .defined 3.0 := by decide +kernel
  have hnarrower : settings.narrower unbounded = settings := if_pos (by decide +kernel)
  obtain ⟨-, hget, -, hboth, -, hlost, -⟩ := range_filters hsettings (.ofEntries hrates)
  obtain ⟨-, -, -, -, -, hkept, -⟩ := range_filters hunbounded (.ofEntries hrates)
  rw [hnorm] at hlost hkept
  refine ⟨hsettings, hunbounded, .ofEntries hrates, ?_, ?_, ?_, ?_, ?_⟩
  · rw [hget]
    decide +kernel
  · rw [hget]
    decide +kernel
  · rw [(hboth unbounded hunbounded).1, hnarrower]
  · rw [← Bool.not_eq_true, hlost, Value.AtMost]
    decide +kernel
  · rw [hkept, Value.AtMost]
    decide +kernel

end Settings

end Quantities
