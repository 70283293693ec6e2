import Quantities.Proofs.Binary64.Sign
import Quantities.Proofs.Operator.Extremum
import Quantities.Proofs.Transform.Sorting

/-!
# Extrema of a set

The smallest and the largest defined value stand at the ends of the sorted set, and the largest magnitude
is that of one of the two.  The seeds of the folds that find them never show.
-/

namespace Quantities

open Binary64 KeyedSet

variable {s t : KeyedSet} {x first last : Float} {xs : List Float}

/-! ## The largest magnitude -/

/-- The fold starts from zero, which no magnitude lies below. -/
theorem maxNormOf_spec (hxs : xs ≠ []) (hfinite : ∀ x ∈ xs, x.isFinite = true) :
    (maxNormOf xs).isFinite = true ∧ (∃ x ∈ xs, toRat (maxNormOf xs) = |toRat x|) ∧
      ∀ x ∈ xs, |toRat x| ≤ toRat (maxNormOf xs) := by
  have hnan : ∀ y ∈ xs.map Float.abs, y.isNaN = false := by
    intro y hy
    obtain ⟨x, hx, rfl⟩ := List.mem_map.mp hy
    exact isNaN_of_isFinite (isFinite_abs (hfinite x hx))
  obtain ⟨hfound, hzero, hbounds⟩ := Extremum.largest.foldl_pick (xs.map Float.abs) isNaN_zero hnan
  have hle : ∀ x ∈ xs, |toRat x| ≤ toRat (maxNormOf xs) := by
    intro x hx
    rw [← toRat_abs]
    exact hbounds x.abs (List.mem_map_of_mem hx)
  rcases hfound with hseed | hmem
  · have hseed' : maxNormOf xs = 0.0 := hseed
    obtain ⟨x, hx⟩ := List.exists_mem_of_ne_nil xs hxs
    have hxzero : |toRat x| ≤ 0 := by
      have hx' := hle x hx
      rwa [hseed', toRat_zero] at hx'
    refine ⟨by rw [hseed']; rfl, ⟨x, hx, ?_⟩, hle⟩
    rw [hseed', toRat_zero]
    exact le_antisymm (abs_nonneg _) hxzero
  · obtain ⟨x, hx, hnorm⟩ := List.mem_map.mp hmem
    have hnorm' : maxNormOf xs = x.abs := hnorm.symm
    refine ⟨?_, ⟨x, hx, ?_⟩, hle⟩
    · rw [hnorm']
      exact isFinite_abs (hfinite x hx)
    · rw [hnorm', toRat_abs]

/-! ## The ends of sorted numbers -/

theorem toRat_head_le (hsorted : xs.Pairwise InOrder) (hfinite : ∀ x ∈ xs, x.isFinite = true)
    (hfirst : xs.head? = some first) (hx : x ∈ xs) : toRat first ≤ toRat x := by
  obtain ⟨rest, rfl⟩ := List.head?_eq_some_iff.mp hfirst
  rcases List.mem_cons.mp hx with rfl | hrest
  · exact le_refl _
  · have horder : InOrder first x := (List.pairwise_cons.mp hsorted).1 x hrest
    exact horder.toRat_le (hfinite first List.mem_cons_self) (hfinite x hx)

theorem toRat_le_getLast (hsorted : xs.Pairwise InOrder) (hfinite : ∀ x ∈ xs, x.isFinite = true)
    (hlast : xs.getLast? = some last) (hx : x ∈ xs) : toRat x ≤ toRat last := by
  obtain ⟨front, rfl⟩ := List.getLast?_eq_some_iff.mp hlast
  rcases List.mem_append.mp hx with hfront | hend
  · have horder : InOrder x last :=
      (List.pairwise_append.mp hsorted).2.2 x hfront last List.mem_cons_self
    exact horder.toRat_le (hfinite x hx) (hfinite last (by simp))
  · rw [List.mem_singleton.mp hend]

/-! ## Reductions of sets with defined values -/

theorem Reduction.eval_of_none_defined (reduction : Reduction) (h : s.definedValues = []) :
    reduction.eval s = .undefined := by
  simp [Reduction.eval, h]

/-- A defined reduction is the reduced number of some accepted numbers. -/
theorem Reduction.of_eval_eq_defined {reduction : Reduction} (h : reduction.eval s = .defined x) :
    s.definedValues ≠ [] ∧ x = reduction.ofNumbers s.definedValues ∧ x.isFinite = true := by
  unfold Reduction.eval at h
  dsimp only at h
  split at h
  · cases h
  · next hguard =>
    rw [Bool.or_eq_true, not_or] at hguard
    have hsome : s.definedValues ≠ [] := by simpa using hguard.1
    unfold Value.ofFloat at h
    split at h
    · next hfinite =>
      cases h
      exact ⟨hsome, rfl, hfinite⟩
    · cases h

namespace KeyedSet

theorem WellFormed.exists_extremum (hs : s.WellFormed) (hvalues : s.definedValues ≠ [])
    (extremum : Extremum) : ∃ m, extremum.reduction.eval s = .defined m ∧ m ∈ s.definedValues ∧
      ∀ x ∈ s.definedValues, extremum.Bounds m x := by
  have hextremum := extremum.isExtremumOf_reduction fun x => hs.isFinite_of_mem_definedValues
  cases heval : extremum.reduction.eval s with
  | undefined =>
      rw [heval] at hextremum
      obtain ⟨x, hx⟩ := List.exists_mem_of_ne_nil _ hvalues
      cases hextremum _ (List.mem_map_of_mem hx)
  | defined m =>
      rw [heval] at hextremum
      obtain ⟨hmem, hbounds⟩ := hextremum
      refine ⟨m, rfl, by simpa using hmem, fun x hx => hbounds x (List.mem_map_of_mem hx)⟩

theorem WellFormed.exists_maxNorm (hs : s.WellFormed) (hvalues : s.definedValues ≠ []) :
    ∃ norm, Reduction.maxNorm.eval s = .defined norm ∧ norm.isFinite = true ∧
      (∃ x ∈ s.definedValues, toRat norm = |toRat x|) ∧
      ∀ x ∈ s.definedValues, |toRat x| ≤ toRat norm := by
  obtain ⟨hfinite, hattained, hbounds⟩ :=
    maxNormOf_spec hvalues fun x => hs.isFinite_of_mem_definedValues
  refine ⟨maxNormOf s.definedValues, ?_, hfinite, hattained, hbounds⟩
  have hsome : s.definedValues.isEmpty = false := by simpa using hvalues
  simp [Reduction.eval, hsome, Reduction.accepts, Reduction.ofNumbers,
    Extremum.ofFloat_of_isFinite hfinite]

end KeyedSet

namespace Reduction

def extrema : List Reduction :=
  [.minimum, .maximum, .maxNorm]

theorem isDefined_eval_of_extrema {reduction : Reduction} (hreduction : reduction ∈ extrema)
    (hs : s.WellFormed) : (reduction.eval s).isDefined = true ↔ s.definedValues ≠ [] := by
  by_cases hvalues : s.definedValues = []
  · rw [reduction.eval_of_none_defined hvalues]
    exact iff_of_false (by simp [Value.isDefined]) (by simpa using hvalues)
  · refine iff_of_true ?_ hvalues
    obtain ⟨least, hleast, -⟩ := hs.exists_extremum hvalues .smallest
    obtain ⟨greatest, hgreatest, -⟩ := hs.exists_extremum hvalues .largest
    obtain ⟨norm, hnorm, -⟩ := hs.exists_maxNorm hvalues
    fin_cases hreduction
    · exact hleast ▸ rfl
    · exact hgreatest ▸ rfl
    · exact hnorm ▸ rfl

theorem bound_eval_beq_of_same_numbers (extremum : Extremum) (hs : s.WellFormed) (ht : t.WellFormed)
    (hsame : ∀ x, x ∈ t.definedValues ↔ x ∈ s.definedValues) :
    (extremum.reduction.eval t == extremum.reduction.eval s) = true := by
  refine (extremum.isExtremumOf_reduction fun x => ht.isFinite_of_mem_definedValues).beq
    (extremum.isExtremumOf_reduction fun x => hs.isFinite_of_mem_definedValues) ?_ ?_
  · simpa [Value.IsNormal] using fun x hx => ht.isFinite_of_mem_definedValues hx
  · simpa using hsame

theorem maxNorm_eval_beq_of_same_numbers (hs : s.WellFormed) (ht : t.WellFormed)
    (hsame : ∀ x, x ∈ t.definedValues ↔ x ∈ s.definedValues) :
    (maxNorm.eval t == maxNorm.eval s) = true := by
  by_cases hvalues : s.definedValues = []
  · have hnone : t.definedValues = [] := by
      rw [List.eq_nil_iff_forall_not_mem]
      intro x hx
      simpa [hvalues] using (hsame x).mp hx
    rw [eval_of_none_defined _ hvalues, eval_of_none_defined _ hnone]
    rfl
  · have hsome : t.definedValues ≠ [] := by
      obtain ⟨x, hx⟩ := List.exists_mem_of_ne_nil _ hvalues
      exact List.ne_nil_of_mem ((hsame x).mpr hx)
    obtain ⟨m, hm, hmfinite, ⟨x, hx, hmx⟩, hmbounds⟩ := hs.exists_maxNorm hvalues
    obtain ⟨n, hn, hnfinite, ⟨y, hy, hny⟩, hnbounds⟩ := ht.exists_maxNorm hsome
    rw [hm, hn]
    show (n == m) = true
    rw [beq_iff (isNaN_of_isFinite hnfinite) (isNaN_of_isFinite hmfinite)]
    apply le_antisymm
    · rw [hny]
      exact hmbounds y ((hsame y).mp hy)
    · rw [hmx]
      exact hnbounds x ((hsame x).mpr hx)

/-- Sets with the same numbers among their values have equal extrema. -/
theorem eval_beq_of_same_numbers {reduction : Reduction} (hreduction : reduction ∈ extrema)
    (hs : s.WellFormed) (ht : t.WellFormed)
    (hsame : ∀ x, x ∈ t.definedValues ↔ x ∈ s.definedValues) :
    (reduction.eval t == reduction.eval s) = true := by
  fin_cases hreduction
  · exact bound_eval_beq_of_same_numbers .smallest hs ht hsame
  · exact bound_eval_beq_of_same_numbers .largest hs ht hsame
  · exact maxNorm_eval_beq_of_same_numbers hs ht hsame

/-! ## Extrema and sorts -/

/-- The extrema of a set: bounds of its numbers that are attained, equal to the ends of both sorts, and
the larger of their magnitudes. -/
structure AreExtrema (s : KeyedSet) (least greatest norm : Float) : Prop where
  minimum_eq : minimum.eval s = .defined least
  maximum_eq : maximum.eval s = .defined greatest
  maxNorm_eq : maxNorm.eval s = .defined norm
  bounds : ∀ x ∈ s.definedValues, least ≤ x ∧ x ≤ greatest
  least_attained : ∃ x ∈ s.definedValues, (x == least) = true
  greatest_attained : ∃ x ∈ s.definedValues, (x == greatest) = true
  ends : ∃ first last, (Transform.ascending.eval s).definedValues.head? = some first ∧
    (Transform.ascending.eval s).definedValues.getLast? = some last ∧
    (Transform.descending.eval s).definedValues.head? = some last ∧
    (Transform.descending.eval s).definedValues.getLast? = some first ∧
    (least == first) = true ∧ (greatest == last) = true
  norm_eq : (norm == larger least.abs greatest.abs) = true

/-- Attained bounds stand at the ends of the sorted numbers. -/
theorem ends_of_bounds (hs : s.WellFormed) {least greatest : Float} (hleast : least ∈ s.definedValues)
    (hgreatest : greatest ∈ s.definedValues)
    (hbounds : ∀ x ∈ s.definedValues, toRat least ≤ toRat x ∧ toRat x ≤ toRat greatest) :
    ∃ first last, (Transform.ascending.eval s).definedValues.head? = some first ∧
      (Transform.ascending.eval s).definedValues.getLast? = some last ∧
      toRat first = toRat least ∧ toRat last = toRat greatest ∧
      first.isFinite = true ∧ last.isFinite = true := by
  have hperm : (Transform.ascending.eval s).definedValues.Perm s.definedValues :=
    (hs.rearranges_sortedBy precedes).perm
  have hsorted := Transform.pairwise_ascending hs
  have hfinite : ∀ x ∈ (Transform.ascending.eval s).definedValues, x.isFinite = true :=
    fun x => (hs.transform .ascending).isFinite_of_mem_definedValues
  have hsome : (Transform.ascending.eval s).definedValues ≠ [] :=
    List.ne_nil_of_mem (hperm.mem_iff.mpr hleast)
  obtain ⟨first, hfirst⟩ := Option.isSome_iff_exists.mp (List.isSome_head?.mpr hsome)
  obtain ⟨last, hlast⟩ := Option.isSome_iff_exists.mp (List.getLast?_isSome.mpr hsome)
  have hfirstmem := List.mem_of_mem_head? hfirst
  have hlastmem := List.mem_of_getLast? hlast
  refine ⟨first, last, hfirst, hlast, le_antisymm ?_ ?_, le_antisymm ?_ ?_, hfinite first hfirstmem,
    hfinite last hlastmem⟩
  · exact toRat_head_le hsorted hfinite hfirst (hperm.mem_iff.mpr hleast)
  · exact (hbounds first (hperm.mem_iff.mp hfirstmem)).1
  · exact (hbounds last (hperm.mem_iff.mp hlastmem)).2
  · exact toRat_le_getLast hsorted hfinite hlast (hperm.mem_iff.mpr hgreatest)

theorem exists_areExtrema (hs : s.WellFormed) (hvalues : s.definedValues ≠ []) :
    ∃ least greatest norm, AreExtrema s least greatest norm := by
  obtain ⟨least, hminimum, hleast, hlower⟩ := hs.exists_extremum hvalues .smallest
  obtain ⟨greatest, hmaximum, hgreatest, hupper⟩ := hs.exists_extremum hvalues .largest
  obtain ⟨norm, hnorm, hnormfinite, ⟨x, hx, hnormx⟩, hmagnitudes⟩ := hs.exists_maxNorm hvalues
  have hnan : ∀ {y}, y ∈ s.definedValues → y.isNaN = false :=
    fun hy => isNaN_of_isFinite (hs.isFinite_of_mem_definedValues hy)
  have hbounds : ∀ y ∈ s.definedValues, toRat least ≤ toRat y ∧ toRat y ≤ toRat greatest :=
    fun y hy => ⟨(le_iff (hnan hleast) (hnan hy)).mp (hlower y hy),
      (le_iff (hnan hy) (hnan hgreatest)).mp (hupper y hy)⟩
  refine ⟨least, greatest, norm, ?_⟩
  constructor
  case minimum_eq => exact hminimum
  case maximum_eq => exact hmaximum
  case maxNorm_eq => exact hnorm
  case bounds => exact fun y hy => ⟨hlower y hy, hupper y hy⟩
  case least_attained => exact ⟨least, hleast, (beq_iff (hnan hleast) (hnan hleast)).mpr rfl⟩
  case greatest_attained =>
    exact ⟨greatest, hgreatest, (beq_iff (hnan hgreatest) (hnan hgreatest)).mpr rfl⟩
  case ends =>
    obtain ⟨first, last, hfirst, hlast, hfirsteq, hlasteq, hfirstfinite, hlastfinite⟩ :=
      ends_of_bounds hs hleast hgreatest hbounds
    refine ⟨first, last, hfirst, hlast, ?_, ?_, ?_, ?_⟩
    · rw [Transform.definedValues_descending hs, List.head?_reverse, hlast]
    · rw [Transform.definedValues_descending hs, List.getLast?_reverse, hfirst]
    · rw [beq_iff (hnan hleast) (isNaN_of_isFinite hfirstfinite), hfirsteq]
    · rw [beq_iff (hnan hgreatest) (isNaN_of_isFinite hlastfinite), hlasteq]
  case norm_eq =>
    have hleastabs : least.abs.isNaN = false := by rw [isNaN_abs, hnan hleast]
    have hgreatestabs : greatest.abs.isNaN = false := by rw [isNaN_abs, hnan hgreatest]
    have hlarger : (larger least.abs greatest.abs).isNaN = false :=
      Extremum.largest.isNaN_pick hleastabs hgreatestabs
    rw [beq_iff (isNaN_of_isFinite hnormfinite) hlarger, toRat_larger hleastabs hgreatestabs,
      toRat_abs, toRat_abs]
    apply le_antisymm
    · rw [hnormx]
      exact abs_le_max_abs_abs (hbounds x hx).1 (hbounds x hx).2
    · exact max_le (hmagnitudes least hleast) (hmagnitudes greatest hgreatest)

/--
The smallest and the largest number and the largest magnitude of a set: defined as soon as some value is,
consistent with each other and with both sorts, and determined by which numbers are defined.  Neither
their order nor repetitions, undefined entries, keys, name and kind matter.
-/
theorem extrema_agree (hs : Reachable s) :
    (∀ reduction ∈ extrema, (reduction.eval s).isDefined = true ↔ s.definedValues ≠ []) ∧
    (s.definedValues ≠ [] → ∃ least greatest norm, AreExtrema s least greatest norm) ∧
    ∀ t, Reachable t → (∀ x, x ∈ t.definedValues ↔ x ∈ s.definedValues) →
      ∀ reduction ∈ extrema, (reduction.eval t == reduction.eval s) = true := by
  have hwell := hs.wellFormed
  constructor
  · exact fun reduction hreduction => isDefined_eval_of_extrema hreduction hwell
  · constructor
    · exact exists_areExtrema hwell
    · exact fun t ht hsame reduction hreduction =>
        eval_beq_of_same_numbers hreduction hwell ht.wellFormed hsame

theorem extrema_agree_of_wells_and_groups :
    let s := (((bare "WA" .well).push "P1" (.defined 0.0)).push "P2" .undefined).push "P3"
      (.defined (-3.0))
    let t := (((bare "GB" .group).push "G2" (.defined (-3.0))).push "G1" (.defined 0.0)).push "G3"
      (.defined (-3.0))
    Reachable s ∧ Reachable t ∧ (∃ least greatest norm, AreExtrema s least greatest norm) ∧
      maxNorm.eval s = .defined 3.0 ∧
      ∀ reduction ∈ extrema, (reduction.eval t == reduction.eval s) = true := by
  intro s t
  have hs : KeyedSet.ofEntries "WA" .well [("P1", .defined 0.0), ("P2", .undefined),
      ("P3", .defined (-3.0))] = .ok s := rfl
  have ht : KeyedSet.ofEntries "GB" .group [("G2", .defined (-3.0)), ("G1", .defined 0.0),
      ("G3", .defined (-3.0))] = .ok t := rfl
  have hsvalues : s.definedValues = [0.0, -3.0] := rfl
  have htvalues : t.definedValues = [-3.0, 0.0, -3.0] := rfl
  obtain ⟨-, hextrema, hsame⟩ := extrema_agree (.ofEntries hs)
  refine ⟨.ofEntries hs, .ofEntries ht, hextrema (by simp [hsvalues]), by decide +kernel,
    hsame t (.ofEntries ht) fun x => ?_⟩
  rw [hsvalues, htvalues]
  simp
  tauto

end Reduction

end Quantities
