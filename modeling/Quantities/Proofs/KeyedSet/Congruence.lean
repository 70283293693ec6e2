import Quantities.Proofs.KeyedSet.Equality
import Quantities.Proofs.Transform.Sorting
import Quantities.Reduction

/-!
# Functions of equal sets

Equal sets give equal results, whichever function of the catalogue is applied to them.  The sign of a zero,
which equality does not see, neither decides whether a result is defined nor changes the number that it
holds.
-/

namespace Quantities

open Binary64

/-! ## Reductions -/

section Numbers

variable {xs ys : List Float} {f : Float → Float → Float}

theorem alike_foldl (hf : ∀ {w x y z : Float}, Alike w x → Alike y z → Alike (f w y) (f x z))
    {start start' : Float} (hstart : Alike start start') (h : List.Forall₂ Alike xs ys) :
    Alike (xs.foldl f start) (ys.foldl f start') := by
  induction h generalizing start start' with
  | nil => exact hstart
  | cons hxy _ ih => exact ih (hf hstart hxy)

theorem alike_sumOf (h : List.Forall₂ Alike xs ys) : Alike (sumOf xs) (sumOf ys) :=
  alike_foldl Alike.add (.refl _) h

theorem alike_arithmeticMeanOf (h : List.Forall₂ Alike xs ys) :
    Alike (arithmeticMeanOf xs) (arithmeticMeanOf ys) := by
  rw [arithmeticMeanOf, arithmeticMeanOf, h.length_eq]
  exact (alike_sumOf h).div _

theorem forall₂_toRat_iff :
    List.Forall₂ (fun x y => toRat x = toRat y) xs ys ↔ xs.map toRat = ys.map toRat := by
  rw [← List.forall₂_eq_eq_eq, List.forall₂_map_left_iff, List.forall₂_map_right_iff]

theorem forall₂_alike_map {g : Float → Float} (hg : ∀ {x y : Float}, Alike x y → Alike (g x) (g y))
    (h : List.Forall₂ Alike xs ys) : List.Forall₂ Alike (xs.map g) (ys.map g) :=
  List.rel_map (fun _ _ hxy => hg hxy) h

end Numbers

namespace Reduction

variable (reduction : Reduction) {x y : Float} {xs ys : List Float}

theorem accepts_eq (h : Alike x y) : reduction.accepts x = reduction.accepts y := by
  cases reduction with
  | geometricMean => simp only [accepts, h.le_iff (.refl 0.0)]
  | harmonicMean => simp only [accepts, h.beq_eq (.refl 0.0)]
  | _ => rfl

theorem all_accepts_eq (h : List.Forall₂ Alike xs ys) :
    xs.all reduction.accepts = ys.all reduction.accepts := by
  induction h with
  | nil => rfl
  | cons hxy _ ih => rw [List.all_cons, List.all_cons, reduction.accepts_eq hxy, ih]

/-- Lists without zeros are alike only if they are the same. -/
theorem eq_of_all_accepts (hreduction : reduction = .geometricMean ∨ reduction = .harmonicMean)
    (h : List.Forall₂ Alike xs ys) (hxs : xs.all reduction.accepts = true) : xs = ys := by
  rw [← List.forall₂_eq_eq_eq]
  refine ((List.forall₂_and_left xs ys).mpr ⟨List.all_eq_true.mp hxs, h⟩).imp ?_
  rintro x y ⟨haccepts, hxy⟩
  rcases hreduction with rfl | rfl
  · exact hxy.eq_of_not_le_zero (by simpa [accepts] using haccepts)
  · exact hxy.eq_of_bne_zero (by simpa [accepts] using haccepts)

theorem alike_ofNumbers (h : List.Forall₂ Alike xs ys) (hxs : xs.all reduction.accepts = true) :
    Alike (reduction.ofNumbers xs) (reduction.ofNumbers ys) := by
  have hmagnitudes := forall₂_alike_map Alike.abs h
  cases reduction with
  | sum => exact alike_sumOf h
  | arithmeticMean => exact alike_arithmeticMeanOf h
  | geometricMean | harmonicMean =>
      -- Logarithms and reciprocals tell the zeros apart, but lists with zeros are not accepted.
      rw [eq_of_all_accepts _ (by decide) h hxs]
      exact .refl _
  | minimum => exact alike_foldl Alike.smaller (.refl _) h
  | maximum => exact alike_foldl Alike.larger (.refl _) h
  | oneNorm => exact alike_sumOf hmagnitudes
  | twoNorm => exact (alike_sumOf (forall₂_alike_map (fun hxy => hxy.mul hxy) h)).sqrt
  | maxNorm => exact alike_foldl Alike.larger (.refl _) hmagnitudes
  | product => exact alike_foldl Alike.mul (.refl _) h

theorem alike_eval {s t : KeyedSet} (h : List.Forall₂ Alike s.definedValues t.definedValues) :
    (reduction.eval s).Alike (reduction.eval t) := by
  have hempty : s.definedValues.isEmpty = t.definedValues.isEmpty := by
    rw [Bool.eq_iff_iff, List.isEmpty_iff_length_eq_zero, List.isEmpty_iff_length_eq_zero,
      h.length_eq]
  simp only [eval, hempty, reduction.all_accepts_eq h]
  split
  · exact .undefined
  · next hdefined =>
    rw [Bool.or_eq_true, not_or, Bool.not_eq_true, Bool.not_eq_true', Bool.not_eq_false] at hdefined
    apply Value.Alike.ofFloat
    apply reduction.alike_ofNumbers h
    rw [reduction.all_accepts_eq h]
    exact hdefined.2

theorem isNormal_eval (s : KeyedSet) : (reduction.eval s).IsNormal := by
  simp only [eval]
  split
  · trivial
  · exact Value.isNormal_ofFloat _

end Reduction

namespace KeyedSet

variable {s t lhs rhs lhs' rhs' : KeyedSet}

theorem Matches.forall₂_definedValues (h : s.Matches t) (hs : s.WellFormed) (ht : t.WellFormed) :
    List.Forall₂ Alike s.definedValues t.definedValues :=
  Value.forall₂_numbers_of_related (h.forall₂_alike hs ht)

/-! ## Functions of one set -/

theorem Matches.mapValues (h : s.Matches t) (hs : s.WellFormed) (ht : t.WellFormed)
    {f : Value → Value} (hf : ∀ {l r : Value}, l.Alike r → (f l).Alike (f r)) :
    (s.mapValues f).Matches (t.mapValues f) := by
  refine ⟨⟨h.name_eq, h.kind_eq, h.keys_eq⟩, ?_⟩
  rw [values_mapValues, values_mapValues]
  refine List.rel_map (fun l r hvalue => ?_) (h.forall₂_alike hs ht)
  have halike : (f l).Alike (f r) := hf hvalue
  exact halike.normalized.sameNumber

/--
Numbers that are equal in pairs are equal in pairs when they are sorted.  The sort tells the zeros apart
and may move them differently, but both results list the same numbers without a descent.
-/
theorem map_toRat_ascending (hs : s.WellFormed) (ht : t.WellFormed)
    (h : s.definedValues.map toRat = t.definedValues.map toRat) :
    (Transform.ascending.eval s).definedValues.map toRat =
      (Transform.ascending.eval t).definedValues.map toRat := by
  have hordered : ∀ {u : KeyedSet}, u.WellFormed →
      ((Transform.ascending.eval u).definedValues.map toRat).Pairwise (· ≤ ·) := by
    intro u hu
    have hfinite : ∀ {x}, x ∈ (Transform.ascending.eval u).definedValues → x.isFinite = true :=
      (hu.transform .ascending).isFinite_of_mem_definedValues
    rw [List.pairwise_map]
    exact (Transform.pairwise_ascending hu).imp_of_mem fun hx hy hxy =>
      InOrder.toRat_le hxy (hfinite hx) (hfinite hy)
  have hperm : ∀ {u : KeyedSet}, u.WellFormed →
      ((Transform.ascending.eval u).definedValues.map toRat).Perm (u.definedValues.map toRat) :=
    fun hu => (hu.rearranges_sortedBy precedes).perm.map toRat
  have hboth := (hperm hs).trans (h ▸ (hperm ht).symm)
  exact hboth.eq_of_pairwise (fun _ _ _ _ => le_antisymm) (hordered hs) (hordered ht)

theorem map_toRat_of_sort (hs : s.WellFormed) (ht : t.WellFormed) {sort : Transform}
    (hsort : sort ∈ Transform.sorts)
    (h : s.definedValues.map toRat = t.definedValues.map toRat) :
    (sort.eval s).definedValues.map toRat = (sort.eval t).definedValues.map toRat := by
  have hascending := map_toRat_ascending hs ht h
  fin_cases hsort
  · exact hascending
  · show (Transform.descending.eval s).definedValues.map toRat =
      (Transform.descending.eval t).definedValues.map toRat
    rw [Transform.definedValues_descending hs, Transform.definedValues_descending ht, List.map_reverse,
      List.map_reverse, hascending]

theorem Matches.sorted (h : s.Matches t) (hs : s.WellFormed) (ht : t.WellFormed) {sort : Transform}
    (hsort : sort ∈ Transform.sorts) : (sort.eval s).Matches (sort.eval t) := by
  have hframe : SameFrame (sort.eval s) (sort.eval t) :=
    (sort.sameFrame_eval s).trans (h.toSameFrame.trans (sort.sameFrame_eval t).symm)
  have hsrearranges := Transform.rearranges_of_sort hsort hs
  have htrearranges := Transform.rearranges_of_sort hsort ht
  refine ⟨hframe, Value.forall₂_related_of_numbers ?_ ?_⟩
  · rw [hsrearranges.map_isDefined_eq, htrearranges.map_isDefined_eq,
      Value.map_isDefined_eq_of_forall₂ h.sameNumber]
  · rw [forall₂_toRat_iff]
    apply map_toRat_of_sort hs ht hsort
    rw [← forall₂_toRat_iff]
    exact Value.forall₂_numbers_of_related h.sameNumber

theorem Matches.transform (h : s.Matches t) (hs : s.WellFormed) (ht : t.WellFormed)
    (transform : Transform) : (transform.eval s).Matches (transform.eval t) := by
  cases hpointwise : transform.isPointwise with
  | true =>
      rw [Transform.eval_of_isPointwise hpointwise, Transform.eval_of_isPointwise hpointwise]
      exact h.mapValues hs ht (transform.alike_onValue ·)
  | false =>
      cases transform with
      | ascending | descending => exact h.sorted hs ht (by decide)
      | _ => cases hpointwise

theorem Matches.applyRange (h : s.Matches t) (hs : s.WellFormed) (ht : t.WellFormed)
    (settings : Settings) : (settings.applyRange s).Matches (settings.applyRange t) := by
  rw [settings.applyRange_eq_mapValues, settings.applyRange_eq_mapValues]
  exact h.mapValues hs ht (settings.alike_inRange ·)

/-! ## Functions of two sets -/

theorem SameFrame.combine (hl : SameFrame lhs lhs') (hr : SameFrame rhs rhs')
    (hlhs : lhs.WellFormed) (hlhs' : lhs'.WellFormed) (f : Value → Value → Value) :
    SameFrame (combine f lhs rhs) (combine f lhs' rhs') := by
  have hlkind := hl.kind_eq
  have hrkind := hr.kind_eq
  cases hrscalar' : rhs'.kind.isScalar with
  | true =>
      rw [combine_of_scalar_right f (hrkind ▸ hrscalar'), combine_of_scalar_right f hrscalar']
      exact ⟨hl.name_eq, hl.kind_eq, hl.keys_eq⟩
  | false =>
      cases hlscalar' : lhs'.kind.isScalar with
      | true =>
          rw [combine_of_scalar_left f (hlkind ▸ hlscalar') (hrkind ▸ hrscalar'),
            combine_of_scalar_left f hlscalar' hrscalar']
          exact ⟨hl.name_eq, hr.kind_eq, hr.keys_eq⟩
      | false =>
          have hlscalar : lhs.kind.isScalar = false := hlkind ▸ hlscalar'
          have hrscalar : rhs.kind.isScalar = false := hrkind ▸ hrscalar'
          refine ⟨?_, ?_, ?_⟩
          · rw [name_combine_of_keyed f hlscalar hrscalar, name_combine_of_keyed f hlscalar' hrscalar',
              hl.name_eq]
          · rw [kind_combine_of_keyed f hlscalar hrscalar, kind_combine_of_keyed f hlscalar' hrscalar',
              hl.kind_eq]
          · rw [keys_combine_of_keyed f hlscalar hrscalar, keys_combine_of_keyed f hlscalar' hrscalar',
              keys_keyUnion, keys_keyUnion, hlhs.missingKeys_eq, hlhs'.missingKeys_eq, hl.keys_eq,
              hr.keys_eq]

section Operands

variable (hl : lhs.Matches lhs') (hr : rhs.Matches rhs') (hlhs : lhs.WellFormed)
  (hlhs' : lhs'.WellFormed) (hrhs : rhs.WellFormed) (hrhs' : rhs'.WellFormed)
include hl hr hlhs hlhs' hrhs hrhs'

theorem Matches.alike_operandsAt (key : String) :
    (operandsAt lhs rhs key).1.Alike (operandsAt lhs' rhs' key).1 ∧
    (operandsAt lhs rhs key).2.Alike (operandsAt lhs' rhs' key).2 := by
  unfold operandsAt
  rw [hl.kind_eq, hr.kind_eq]
  split
  · exact ⟨hl.alike_scalarValue hlhs hlhs', hr.alike_get hrhs hrhs' key⟩
  · exact ⟨hl.alike_get hlhs hlhs' key, hr.alike_scalarValue hrhs hrhs'⟩
  · exact ⟨hl.alike_get hlhs hlhs' key, hr.alike_get hrhs hrhs' key⟩

theorem Matches.operator (operator : Operator) (epsilon : Float) :
    (operator.eval epsilon lhs rhs).Matches (operator.eval epsilon lhs' rhs') := by
  have hframe : SameFrame (operator.eval epsilon lhs rhs) (operator.eval epsilon lhs' rhs') :=
    hl.toSameFrame.combine hr.toSameFrame hlhs hlhs' _
  have hwell := operator.wellFormed_eval epsilon hlhs hrhs
  have hwell' := operator.wellFormed_eval epsilon hlhs' hrhs'
  refine ⟨hframe, (hframe.forall₂_values_iff hwell hwell').mpr fun key hkey => ?_⟩
  obtain ⟨hleft, hright⟩ := hl.alike_operandsAt hr hlhs hlhs' hrhs hrhs' key
  have hkey' : key ∈ (operator.eval epsilon lhs' rhs').keys := hframe.keys_eq ▸ hkey
  rw [operator.get_eval epsilon hlhs hrhs hkey, operator.get_eval epsilon hlhs' hrhs' hkey']
  exact (operator.alike_rule epsilon hleft hright).sameNumber

end Operands

/-! ## Equality -/

/--
Equality of sets is equality of names, kinds, keys and numbers: the index never tells two sets apart, and
no number differs from itself.  Every function of the catalogue, and the range check, gives equal results
for equal arguments.
-/
theorem equality_congruence {s : KeyedSet} (hs : Reachable s) :
    (∀ t, Reachable t → ((s == t) = true ↔ s.Matches t)) ∧
    (∀ t, Reachable t → s.keys = t.keys → (s.index == t.index) = true) ∧
    (s == s) = true ∧
    (∀ t, Reachable t → (s == t) = true → (t == s) = true) ∧
    (∀ t u, Reachable t → Reachable u → (s == t) = true → (t == u) = true → (s == u) = true) ∧
    ∀ s', Reachable s' → (s == s') = true →
      (∀ reduction : Reduction, (reduction.eval s == reduction.eval s') = true) ∧
      (∀ transform : Transform, (transform.eval s == transform.eval s') = true) ∧
      (∀ settings : Settings, (settings.applyRange s == settings.applyRange s') = true) ∧
      ∀ (operator : Operator) (epsilon : Float) (t t' : KeyedSet), Reachable t → Reachable t' →
        (t == t') = true → (operator.eval epsilon s t == operator.eval epsilon s' t') = true := by
  have hbeq : ∀ {t u : KeyedSet}, Reachable t → Reachable u → ((t == u) = true ↔ t.Matches u) :=
    fun ht hu => ht.wellFormed.beq_iff_matches hu.wellFormed
  have hwell := hs.wellFormed
  refine ⟨fun t ht => hbeq hs ht, fun t ht => hwell.beq_index ht.wellFormed,
    (hbeq hs hs).mpr (.refl s), fun t ht hst => ?_, fun t u ht hu hst htu => ?_,
    fun s' hs' hequal => ?_⟩
  · exact (hbeq ht hs).mpr ((hbeq hs ht).mp hst).symm
  · exact (hbeq hs hu).mpr (((hbeq hs ht).mp hst).trans ((hbeq ht hu).mp htu))
  · have hwell' := hs'.wellFormed
    have hmatches := (hbeq hs hs').mp hequal
    refine ⟨fun reduction => ?_, fun transform => ?_, fun settings => ?_,
      fun operator epsilon t t' ht ht' htequal => ?_⟩
    · rw [Value.beq_iff_sameNumber (reduction.isNormal_eval s) (reduction.isNormal_eval s')]
      exact (reduction.alike_eval (hmatches.forall₂_definedValues hwell hwell')).sameNumber
    · rw [hbeq (hs.transform transform) (hs'.transform transform)]
      exact hmatches.transform hwell hwell' transform
    · rw [hbeq (hs.applyRange settings) (hs'.applyRange settings)]
      exact hmatches.applyRange hwell hwell' settings
    · rw [hbeq (hs.operator operator epsilon ht) (hs'.operator operator epsilon ht')]
      exact hmatches.operator ((hbeq ht ht').mp htequal) hwell hwell' ht.wellFormed ht'.wellFormed
        operator epsilon

theorem equality_congruence_of_zeros :
    let first := (((bare "WA" .well).push "P1" (.defined 0.0)).push "P2" .undefined).push "P3"
      (.defined 2.0)
    let second := (((bare "WA" .well).push "P1" (.defined (-0.0))).push "P2" .undefined).push "P3"
      (.defined 2.0)
    Reachable first ∧ Reachable second ∧ (first == second) = true ∧ (second == first) = true ∧
      first ≠ second ∧
      (Reduction.minimum.eval first == Reduction.minimum.eval second) = true ∧
      (Transform.descending.eval first == Transform.descending.eval second) = true ∧
      (Operator.divide.eval 0.0 first first == Operator.divide.eval 0.0 second second) = true ∧
      (Operator.power.eval 0.0 first second == Operator.power.eval 0.0 second first) = true := by
  intro first second
  have hentries : KeyedSet.ofEntries "WA" .well [("P1", .defined 0.0), ("P2", .undefined),
      ("P3", .defined 2.0)] = .ok first := rfl
  have hentries' : KeyedSet.ofEntries "WA" .well [("P1", .defined (-0.0)), ("P2", .undefined),
      ("P3", .defined 2.0)] = .ok second := rfl
  have hfirst : Reachable first := .ofEntries hentries
  have hsecond : Reachable second := .ofEntries hentries'
  obtain ⟨hiff, -, -, hsymm, -, hcongr⟩ := equality_congruence hfirst
  have hzeros : Value.SameNumber (.defined 0.0) (.defined (-0.0)) :=
    .defined (Alike.toRat_eq rfl)
  have hequal : (first == second) = true := by
    rw [hiff second hsecond]
    exact ⟨⟨rfl, rfl, rfl⟩, .cons hzeros (.cons .undefined (.cons (.of_eq rfl) .nil))⟩
  have hequal' := hsymm second hsecond hequal
  obtain ⟨hreductions, htransforms, -, hoperators⟩ := hcongr second hsecond hequal
  refine ⟨hfirst, hsecond, hequal, hequal', ?_, hreductions .minimum, htransforms .descending,
    hoperators .divide 0.0 first second hfirst hsecond hequal,
    hoperators .power 0.0 second first hsecond hfirst hequal'⟩
  intro hsame
  have hvalues : first.values = second.values := congrArg values hsame
  exact absurd hvalues (by decide +kernel)

end KeyedSet

end Quantities
