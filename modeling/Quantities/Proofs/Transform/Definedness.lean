import Mathlib
import Quantities.Proofs.Generator.Draws
import Quantities.Proofs.KeyedSet.Equality
import Quantities.Proofs.Transform.Pointwise
import Quantities.Proofs.Transform.Sorting

/-!
# Where functions of one set are defined

Every function of one set keeps name, kind, keys and index.  Whether it gives a number under a key depends
on the value under that key alone, for the sorts too, and no number that it computes is lost to the check of
results: exponentials saturate, logarithms are taken of positive numbers only, and draws are finite.
-/

namespace Quantities

open Binary64

theorem Value.isDefined_ofFloat (x : Float) : (Value.ofFloat x).isDefined = x.isFinite := by
  unfold Value.ofFloat
  split
  · next hx => exact hx.symm
  · next hx => exact (Bool.eq_false_iff.mpr hx).symm

namespace Transform

open KeyedSet

variable {s : KeyedSet}

/-- Gives a number under a key that holds this value. -/
def defines : Transform → Value → Bool
  | .magnitude, value | .exponential, value | .nearestInteger, value | .ascending, value
  | .descending, value => value.isDefined
  | .naturalLog, .defined x | .decimalLog, .defined x => 0.0 < x
  | .naturalLog, .undefined | .decimalLog, .undefined => false
  | .definedFlag, _ | .undefinedFlag, _ => true
  | .clear, _ => false

def keepsDefined : Transform → Bool
  | .magnitude | .exponential | .nearestInteger | .ascending | .descending => true
  | _ => false

/-! ## Values on their own -/

/-- The exponential of a finite double saturates at the largest one. -/
theorem isFinite_saturatedExp {x : Float} (hx : x.isFinite = true) :
    (saturatedExp x).isFinite = true := by
  have hlargest : largest.isFinite = true := rfl
  obtain ⟨hexp, hexpnonneg⟩ := exp_nonneg hx
  have hnonneg : 0 ≤ toRat largest := by
    rw [← toRat_zero, ← le_iff isNaN_zero rfl]
    decide
  have hnan : (saturatedExp x).isNaN = false := by
    rcases smaller_eq_or (exp x) largest with hsame | hsame
    · rw [saturatedExp, hsame, hexp]
    · rw [saturatedExp, hsame]
      rfl
  rw [isFinite_iff hnan, saturatedExp, toRat_smaller hexp rfl,
    abs_of_nonneg (le_min hexpnonneg hnonneg)]
  exact (min_le_right _ _).trans_lt (lt_of_abs_lt ((isFinite_iff rfl).mp hlargest))

/-- A logarithm is defined for positive numbers if it is finite there. -/
theorem isDefined_logarithm {log : Float → Float}
    (hlog : ∀ {x : Float}, x.isFinite = true → 0 < toRat x → (log x).isFinite = true) {x : Float}
    (hx : x.isFinite = true) : (logarithm log x).isDefined = decide (0.0 < x) := by
  have hnan := isNaN_of_isFinite hx
  have hpositive : 0.0 < x ↔ 0 < toRat x := by rw [lt_iff isNaN_zero hnan, toRat_zero]
  have hrest : x ≤ 0.0 ↔ ¬0.0 < x := by rw [hpositive, le_iff hnan isNaN_zero, toRat_zero, not_lt]
  unfold logarithm
  by_cases hpos : 0.0 < x
  · rw [if_neg (fun hle => hrest.mp hle hpos), Value.isDefined_ofFloat, hlog hx (hpositive.mp hpos),
      decide_eq_true hpos]
  · rw [if_pos (hrest.mpr hpos), decide_eq_false hpos]
    rfl

theorem isDefined_onValue {transform : Transform} {value : Value} (h : value.IsNormal) :
    (transform.onValue value).isDefined = transform.defines value := by
  cases value with
  | undefined => cases transform <;> rfl
  | defined x =>
      have hx : x.isFinite = true := h
      cases transform with
      | magnitude => exact (Value.isDefined_ofFloat _).trans (isFinite_abs hx)
      | exponential => exact (Value.isDefined_ofFloat _).trans (isFinite_saturatedExp hx)
      | nearestInteger => exact (Value.isDefined_ofFloat _).trans (isFinite_nearestInteger hx)
      | naturalLog =>
          exact isDefined_logarithm (fun hy hpos => (isWithin_ln hy hpos).isFinite (by norm_num)) hx
      | decimalLog =>
          exact isDefined_logarithm (fun hy hpos => (isWithin_log10 hy hpos).isFinite (by norm_num)) hx
      | definedFlag | undefinedFlag | clear | ascending | descending => rfl

/-! ## Values of a set -/

theorem map_isDefined_eval (hs : s.WellFormed) (transform : Transform) :
    (transform.eval s).values.map Value.isDefined = s.values.map transform.defines := by
  by_cases hpointwise : transform.isPointwise = true
  · rw [values_eval_of_isPointwise hpointwise, List.map_map]
    exact List.map_congr_left fun value hvalue => isDefined_onValue (hs.isNormal value hvalue)
  · -- A sort moves numbers, but only between defined positions.
    have hsort : transform ∈ sorts ∧ transform.defines = Value.isDefined := by
      cases transform with
      | ascending | descending => exact ⟨by decide, rfl⟩
      | _ => exact absurd rfl hpointwise
    rw [hsort.2]
    exact (rearranges_of_sort hsort.1 hs).map_isDefined_eq

/-- The flags of definedness are all that they show of a set besides its frame. -/
theorem definedFlag_eval_eq {t : KeyedSet} (hs : s.WellFormed) (ht : t.WellFormed)
    (hframe : SameFrame t s) (h : t.values.map Value.isDefined = s.values.map Value.isDefined) :
    definedFlag.eval t = definedFlag.eval s := by
  have hvalues (u : KeyedSet) : (definedFlag.eval u).values =
      (u.values.map Value.isDefined).map Value.indicator := by
    rw [values_eval_of_isPointwise rfl, List.map_map]
    rfl
  have hframe' := (sameFrame_eval definedFlag t).trans
    (hframe.trans (sameFrame_eval definedFlag s).symm)
  refine hframe'.eq_of_values_eq (ht.transform definedFlag) (hs.transform definedFlag) ?_
  rw [hvalues, hvalues, h]

/-! ## Values under keys -/

section Keys

variable {key : String}

theorem isDefined_get_eval (hs : s.WellFormed) (transform : Transform) (hkey : key ∈ s.keys) :
    ((transform.eval s).get key).isDefined = transform.defines (s.get key) := by
  have hvalues := map_isDefined_eval hs transform
  have hkeys := (sameFrame_eval transform s).keys_eq
  rw [← (hs.transform transform).map_get_keys, ← hs.map_get_keys, hkeys, List.map_map, List.map_map,
    List.map_inj_left] at hvalues
  exact hvalues key hkey

/-- The two flags of a key are zero and one, in one order or the other. -/
theorem get_flags (hs : s.WellFormed) (hkey : key ∈ s.keys) :
    (definedFlag.eval s).get key = .indicator (s.get key).isDefined ∧
      (undefinedFlag.eval s).get key = .indicator !(s.get key).isDefined := by
  rw [eval_of_isPointwise rfl, eval_of_isPointwise rfl,
    hs.get_mapValues_of_isNormal (isNormal_onValue rfl) hkey,
    hs.get_mapValues_of_isNormal (isNormal_onValue rfl) hkey]
  exact ⟨rfl, rfl⟩

end Keys

end Transform

namespace Draw

open KeyedSet

theorem isDefined_get_eval {s : KeyedSet} {key : String} (hs : s.WellFormed) (draw : Draw)
    (g : Generator) (hkey : key ∈ s.keys) : ((draw.eval g s).1.get key).isDefined = true := by
  obtain ⟨hvalues, -⟩ := eval_eq hs draw g
  have hresult : (draw.eval g s).1.WellFormed := hs.mapThreaded _ g
  have hmem : (draw.eval g s).1.get key ∈ (draw.eval g s).1.values := by
    rw [← hresult.map_get_keys]
    exact List.mem_map_of_mem hkey
  rw [hvalues] at hmem
  obtain ⟨x, -, hx⟩ := List.mem_map.mp hmem
  rw [← hx]
  rfl

end Draw

namespace Transform

open KeyedSet

/--
Functions of one set keep the frame of their argument, and where they are defined is decided key by key.

- Magnitude, exponential, nearest integer and the sorts are defined where the argument is, the logarithms
  where it is positive, the flags and the draws everywhere, and clearing nowhere.
- The two flags are zero and one under every key, and their sum is one.
- Functions that keep what is defined keep the flags, and the logarithms have the same flags.
-/
theorem definedness_of_functions {s : KeyedSet} (hs : Reachable s) :
    (∀ transform : Transform, SameFrame (transform.eval s) s ∧ (transform.eval s).index = s.index ∧
      ∀ key ∈ s.keys, ((transform.eval s).get key).isDefined = transform.defines (s.get key)) ∧
    (∀ (draw : Draw) g, SameFrame (draw.eval g s).1 s ∧ (draw.eval g s).1.index = s.index ∧
      ∀ key ∈ s.keys, ((draw.eval g s).1.get key).isDefined = true) ∧
    (∀ key ∈ s.keys, ∃ x y, (definedFlag.eval s).get key = .defined x ∧
      (undefinedFlag.eval s).get key = .defined y ∧
      (x = 0.0 ∨ x = 1.0) ∧ (y = 0.0 ∨ y = 1.0) ∧ x + y = 1.0) ∧
    (∀ transform : Transform, transform.keepsDefined = true →
      definedFlag.eval (transform.eval s) = definedFlag.eval s) ∧
    definedFlag.eval (naturalLog.eval s) = definedFlag.eval (decimalLog.eval s) := by
  have hwell := hs.wellFormed
  refine ⟨fun transform => ?_, fun draw g => ?_, fun key hkey => ?_, fun transform hkeeps => ?_, ?_⟩
  · exact ⟨sameFrame_eval transform s, index_eval transform s, fun key hkey =>
      isDefined_get_eval hwell transform hkey⟩
  · exact ⟨⟨rfl, rfl, rfl⟩, rfl, fun key hkey => draw.isDefined_get_eval hwell g hkey⟩
  · obtain ⟨hdefined, hundefined⟩ := get_flags hwell hkey
    refine ⟨_, _, hdefined, hundefined, ?_⟩
    cases (s.get key).isDefined <;> decide
  · have hdefines : transform.defines = Value.isDefined := by
      cases transform <;> first | rfl | cases hkeeps
    refine definedFlag_eval_eq hwell (hwell.transform transform) (sameFrame_eval transform s) ?_
    rw [map_isDefined_eval hwell transform, hdefines]
  · have hdefines : naturalLog.defines = decimalLog.defines := by
      funext value
      cases value <;> rfl
    refine definedFlag_eval_eq (hwell.transform decimalLog) (hwell.transform naturalLog)
      ((sameFrame_eval naturalLog s).trans (sameFrame_eval decimalLog s).symm) ?_
    rw [map_isDefined_eval hwell, map_isDefined_eval hwell, hdefines]

theorem definedness_of_functions_of_rates :
    let rates := ((((bare "WA" .well).push "P1" (.defined (-0.0))).push "P2" .undefined).push "P3"
      (.defined 1e300)).push "P4" (.defined 5e-324)
    Reachable rates ∧
      ((exponential.eval rates).get "P3").isDefined = true ∧
      ((naturalLog.eval rates).get "P1").isDefined = false ∧
      ((decimalLog.eval rates).get "P4").isDefined = true ∧
      ((clear.eval rates).get "P3").isDefined = false ∧
      ((Draw.normal.eval (.seeded 7) rates).1.get "P2").isDefined = true ∧
      definedFlag.eval (descending.eval rates) = definedFlag.eval rates ∧
      definedFlag.eval (naturalLog.eval rates) = definedFlag.eval (decimalLog.eval rates) := by
  intro rates
  have hrates : KeyedSet.ofEntries "WA" .well [("P1", .defined (-0.0)), ("P2", .undefined),
      ("P3", .defined 1e300), ("P4", .defined 5e-324)] = .ok rates := rfl
  have hkeys : rates.keys = ["P1", "P2", "P3", "P4"] := rfl
  obtain ⟨hdefined, hdrawn, -, hkept, hlogs⟩ := definedness_of_functions (.ofEntries hrates)
  have hget (transform : Transform) (key : String) (hkey : key ∈ ["P1", "P2", "P3", "P4"]) :
      ((transform.eval rates).get key).isDefined = transform.defines (rates.get key) :=
    (hdefined transform).2.2 key (by rwa [hkeys])
  refine ⟨.ofEntries hrates, ?_, ?_, ?_, ?_, (hdrawn .normal (.seeded 7)).2.2 "P2" (by simp [hkeys]),
    hkept .descending rfl, hlogs⟩
  · rw [hget _ "P3" (by decide)]
    decide +kernel
  · rw [hget _ "P1" (by decide)]
    decide +kernel
  · rw [hget _ "P4" (by decide)]
    decide +kernel
  · rw [hget _ "P3" (by decide)]
    rfl

end Transform

end Quantities
