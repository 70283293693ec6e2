import Quantities.Proofs.Binary64.TotalOrder
import Quantities.Proofs.KeyedSet.Reachable
import Quantities.Proofs.Value.Related

/-!
# Sorted sets

Sorting moves the numbers of a set and nothing else: name, kind, keys and undefined positions stay, and
the defined positions hold the same numbers in order.  The order is total, so what a sort gives depends on
the numbers and not on how they were arranged before.
-/

namespace Quantities

open Binary64

/-! ## Sorted numbers -/

section Numbers

variable {xs ys : List Float}

theorem pairwise_mergeSort_precedes (xs : List Float) :
    (xs.mergeSort precedes).Pairwise fun x y => precedes x y = true :=
  List.pairwise_mergeSort precedes_trans precedes_total xs

/-- Numbers in order are determined by which ones they are. -/
theorem eq_of_perm_of_pairwise (hperm : xs.Perm ys)
    (hxs : xs.Pairwise fun x y => precedes x y = true)
    (hys : ys.Pairwise fun x y => precedes x y = true) : xs = ys :=
  hperm.eq_of_pairwise (fun _ _ _ _ => precedes_antisymm) hxs hys

theorem mergeSort_precedes_of_perm (h : xs.Perm ys) :
    xs.mergeSort precedes = ys.mergeSort precedes := by
  refine eq_of_perm_of_pairwise ?_ (pairwise_mergeSort_precedes xs) (pairwise_mergeSort_precedes ys)
  exact (List.mergeSort_perm xs _).trans (h.trans (List.mergeSort_perm ys _).symm)

/-- Sorting the other way round gives the reverse, since no two different numbers are tied. -/
theorem mergeSort_follows (xs : List Float) :
    xs.mergeSort (fun x y => precedes y x) = (xs.mergeSort precedes).reverse := by
  have hpairwise : (xs.mergeSort fun x y => precedes y x).Pairwise fun x y => precedes y x = true :=
    List.pairwise_mergeSort (fun x y z hxy hyz => precedes_trans z y x hyz hxy)
      (fun x y => precedes_total y x) xs
  have hperm : (xs.mergeSort fun x y => precedes y x).reverse.Perm (xs.mergeSort precedes) :=
    (List.reverse_perm _).trans
      ((List.mergeSort_perm xs _).trans (List.mergeSort_perm xs _).symm)
  rw [← eq_of_perm_of_pairwise hperm (List.pairwise_reverse.mpr hpairwise)
    (pairwise_mergeSort_precedes xs), List.reverse_reverse]

end Numbers

namespace KeyedSet

variable {s t : KeyedSet}

/-! ## Laying numbers back -/

/-- As many waiting numbers as there are defined values are laid out in order, one on each of them. -/
theorem threadValues_layBack (values : List Value) (waiting : List Float)
    (hlength : waiting.length = (values.filterMap Value.number?).length)
    (hfinite : ∀ x ∈ waiting, x.isFinite = true) :
    (threadValues layBack waiting values).1.map Value.isDefined = values.map Value.isDefined ∧
    (threadValues layBack waiting values).1.filterMap Value.number? = waiting := by
  induction values generalizing waiting with
  | nil => exact ⟨rfl, (List.length_eq_zero_iff.mp hlength).symm⟩
  | cons value rest ih =>
      cases value with
      | undefined =>
          obtain ⟨hpattern, hnumbers⟩ := ih waiting hlength hfinite
          exact ⟨congrArg (false :: ·) hpattern, hnumbers⟩
      | defined old =>
          cases waiting with
          | nil =>
              cases hlength
          | cons x later =>
              obtain ⟨hpattern, hnumbers⟩ := ih later (Nat.succ.inj hlength)
                fun y hy => hfinite y (List.mem_cons_of_mem x hy)
              have hx : (Value.defined x).normalized = .defined x :=
                Value.normalized_of_isNormal (hfinite x List.mem_cons_self)
              simp only [threadValues, layBack, hx, List.map_cons, hpattern]
              exact ⟨rfl, congrArg (x :: ·) hnumbers⟩

/-! ## Sorted sets -/

theorem WellFormed.isFinite_of_mem_definedValues (h : s.WellFormed) {x : Float}
    (hx : x ∈ s.definedValues) : x.isFinite = true := by
  obtain ⟨value, hvalue, hnumber⟩ := List.mem_filterMap.mp hx
  cases value with
  | undefined => cases hnumber
  | defined y =>
      cases hnumber
      exact h.isNormal _ hvalue

theorem WellFormed.values_sortedBy (h : s.WellFormed) (before : Float → Float → Bool) :
    (s.sortedBy before).values.map Value.isDefined = s.values.map Value.isDefined ∧
    (s.sortedBy before).definedValues = s.definedValues.mergeSort before := by
  have hsame : (s.sortedBy before).values =
      (threadValues layBack (s.definedValues.mergeSort before) s.values).1 :=
    values_mapThreaded s layBack (s.definedValues.mergeSort before)
  rw [definedValues, hsame]
  refine threadValues_layBack s.values _ (List.length_mergeSort s.definedValues) ?_
  intro x hx
  exact h.isFinite_of_mem_definedValues ((List.mergeSort_perm _ _).mem_iff.mp hx)

/-- Has the keys, the defined positions and the numbers of another set, the numbers in any order. -/
structure Rearranges (t s : KeyedSet) : Prop where
  keys_eq : t.keys = s.keys
  isDefined_eq : ∀ i, (t.at? i).map Value.isDefined = (s.at? i).map Value.isDefined
  perm : t.definedValues.Perm s.definedValues

theorem Rearranges.map_isDefined_eq (h : t.Rearranges s) :
    t.values.map Value.isDefined = s.values.map Value.isDefined := by
  apply List.ext_getElem?
  intro i
  rw [List.getElem?_map, List.getElem?_map, ← at?_eq_getElem?_values, ← at?_eq_getElem?_values]
  exact h.isDefined_eq i

theorem WellFormed.rearranges_sortedBy (h : s.WellFormed) (before : Float → Float → Bool) :
    (s.sortedBy before).Rearranges s := by
  obtain ⟨hpattern, hnumbers⟩ := h.values_sortedBy before
  refine ⟨rfl, fun i => ?_, ?_⟩
  · rw [at?_eq_getElem?_values, at?_eq_getElem?_values, ← List.getElem?_map, hpattern,
      List.getElem?_map]
  · rw [hnumbers]
    exact List.mergeSort_perm _ _

/-- How the numbers were arranged does not matter for a sort that depends on which ones they are. -/
theorem Rearranges.values_sortedBy_eq (h : t.Rearranges s) (ht : t.WellFormed) (hs : s.WellFormed)
    {before : Float → Float → Bool}
    (hbefore : t.definedValues.mergeSort before = s.definedValues.mergeSort before) :
    (t.sortedBy before).values = (s.sortedBy before).values := by
  obtain ⟨htpattern, htnumbers⟩ := ht.values_sortedBy before
  obtain ⟨hspattern, hsnumbers⟩ := hs.values_sortedBy before
  apply Value.eq_of_numbers
  · rw [htpattern, hspattern, h.map_isDefined_eq]
  · exact htnumbers.trans (hbefore.trans hsnumbers.symm)

end KeyedSet

namespace Transform

open KeyedSet

variable {s t : KeyedSet}

def sorts : List Transform :=
  [.ascending, .descending]

theorem name_and_kind_of_sort {sort : Transform} (h : sort ∈ sorts) (s : KeyedSet) :
    (sort.eval s).name = s.name ∧ (sort.eval s).kind = s.kind := by
  fin_cases h <;> exact ⟨rfl, rfl⟩

theorem rearranges_of_sort {sort : Transform} (h : sort ∈ sorts) (hs : s.WellFormed) :
    (sort.eval s).Rearranges s := by
  fin_cases h <;> exact hs.rearranges_sortedBy _

theorem definedValues_ascending (hs : s.WellFormed) :
    (ascending.eval s).definedValues = s.definedValues.mergeSort precedes :=
  (hs.values_sortedBy precedes).2

theorem definedValues_descending (hs : s.WellFormed) :
    (descending.eval s).definedValues = (ascending.eval s).definedValues.reverse := by
  rw [definedValues_ascending hs, ← mergeSort_follows]
  exact (hs.values_sortedBy fun x y => precedes y x).2

theorem values_eval_of_rearranges {sort : Transform} (hsort : sort ∈ sorts) (ht : t.WellFormed)
    (hs : s.WellFormed) (h : t.Rearranges s) : (sort.eval t).values = (sort.eval s).values := by
  fin_cases hsort
  · exact h.values_sortedBy_eq ht hs (mergeSort_precedes_of_perm h.perm)
  · refine h.values_sortedBy_eq ht hs ?_
    rw [mergeSort_follows, mergeSort_follows, mergeSort_precedes_of_perm h.perm]

/-- Sets with the same name and kind that rearrange each other sort to the same set. -/
theorem eval_eq_of_rearranges {sort : Transform} (hsort : sort ∈ sorts) (ht : t.WellFormed)
    (hs : s.WellFormed) (h : t.Rearranges s) (hname : t.name = s.name) (hkind : t.kind = s.kind) :
    sort.eval t = sort.eval s := by
  obtain ⟨htname, htkind⟩ := name_and_kind_of_sort hsort t
  obtain ⟨hsname, hskind⟩ := name_and_kind_of_sort hsort s
  have htkeys := (rearranges_of_sort hsort ht).keys_eq
  have hskeys := (rearranges_of_sort hsort hs).keys_eq
  refine (ht.transform sort).ext (hs.transform sort) ?_ ?_ ?_
    (values_eval_of_rearranges hsort ht hs h)
  · rw [htname, hsname, hname]
  · rw [htkind, hskind, hkind]
  · rw [htkeys, hskeys, h.keys_eq]

theorem pairwise_ascending (hs : s.WellFormed) :
    (ascending.eval s).definedValues.Pairwise InOrder := by
  have hfinite : ∀ {x}, x ∈ (ascending.eval s).definedValues → x.isFinite = true :=
    (hs.transform ascending).isFinite_of_mem_definedValues
  have hsorted := pairwise_mergeSort_precedes s.definedValues
  rw [← definedValues_ascending hs] at hsorted
  exact hsorted.imp_of_mem fun hx hy hprecedes => (precedes_iff (hfinite hx) (hfinite hy)).mp hprecedes

theorem ascending_eval_of_sort {sort : Transform} (hsort : sort ∈ sorts) (hs : s.WellFormed) :
    ascending.eval (sort.eval s) = ascending.eval s := by
  obtain ⟨hname, hkind⟩ := name_and_kind_of_sort hsort s
  exact eval_eq_of_rearranges (by decide) (hs.transform sort) hs (rearranges_of_sort hsort hs) hname
    hkind

/--
Both sorts lay the numbers of a set out again over the positions that they had: the ascending one in
order, the descending one the other way round.  What they give depends on which numbers there are, and
sorting a sorted set again changes nothing that ascending order does not undo.
-/
theorem sorts_rearrange (hs : Reachable s) :
    (∀ sort ∈ sorts, (sort.eval s).name = s.name ∧ (sort.eval s).kind = s.kind ∧
      (sort.eval s).Rearranges s) ∧
    (ascending.eval s).definedValues.Pairwise InOrder ∧
    (descending.eval s).definedValues = (ascending.eval s).definedValues.reverse ∧
    (∀ t, Reachable t → t.Rearranges s → ∀ sort ∈ sorts,
      (sort.eval t).values = (sort.eval s).values ∧
      (t.name = s.name → t.kind = s.kind → sort.eval t = sort.eval s)) ∧
    ascending.eval (ascending.eval s) = ascending.eval s ∧
    ascending.eval (descending.eval s) = ascending.eval s := by
  have hwell := hs.wellFormed
  refine ⟨fun sort hsort => ?_, pairwise_ascending hwell, definedValues_descending hwell,
    fun t ht h sort hsort => ?_, ascending_eval_of_sort (by decide) hwell,
    ascending_eval_of_sort (by decide) hwell⟩
  · obtain ⟨hname, hkind⟩ := name_and_kind_of_sort hsort s
    exact ⟨hname, hkind, rearranges_of_sort hsort hwell⟩
  · exact ⟨values_eval_of_rearranges hsort ht.wellFormed hwell h,
      eval_eq_of_rearranges hsort ht.wellFormed hwell h⟩

theorem sorts_rearrange_of_rates :
    let rates := ((((bare "WA" .well).push "P1" (.defined 3.0)).push "P2" .undefined).push "P3"
      (.defined 0.0)).push "P4" (.defined (-0.0))
    let others := ((((bare "WA" .well).push "P1" (.defined (-0.0))).push "P2"
      (.defined Binary64.notANumber)).push "P3" (.defined 3.0)).push "P4" (.defined 0.0)
    Reachable rates ∧ Reachable others ∧ others.Rearranges rates ∧
      (ascending.eval rates).definedValues = [-0.0, 0.0, 3.0] ∧
      (descending.eval rates).definedValues = [3.0, 0.0, -0.0] ∧
      descending.eval others = descending.eval rates ∧
      ascending.eval (descending.eval rates) = ascending.eval rates := by
  intro rates others
  have hrates : KeyedSet.ofEntries "WA" .well [("P1", .defined 3.0), ("P2", .undefined),
      ("P3", .defined 0.0), ("P4", .defined (-0.0))] = .ok rates := rfl
  have hothers : KeyedSet.ofEntries "WA" .well [("P1", .defined (-0.0)),
      ("P2", .defined Binary64.notANumber), ("P3", .defined 3.0), ("P4", .defined 0.0)] =
      .ok others := rfl
  have hrearranges : others.Rearranges rates := by
    refine ⟨rfl, fun i => ?_, ?_⟩
    · rw [at?_eq_getElem?_values, at?_eq_getElem?_values, ← List.getElem?_map, ← List.getElem?_map]
      rfl
    · show [(-0.0 : Float), 3.0, 0.0].Perm [3.0, 0.0, -0.0]
      decide +kernel
  obtain ⟨hframe, -, hreversed, hsame, -, hagain⟩ := sorts_rearrange (.ofEntries hrates)
  have hascending : (ascending.eval rates).definedValues = [-0.0, 0.0, 3.0] := by
    refine eq_of_perm_of_pairwise (((hframe .ascending (by decide)).2.2.perm).trans ?_) ?_ ?_
    · show [(3.0 : Float), 0.0, -0.0].Perm [-0.0, 0.0, 3.0]
      decide +kernel
    · rw [definedValues_ascending (Reachable.ofEntries hrates).wellFormed]
      exact pairwise_mergeSort_precedes _
    · decide +kernel
  refine ⟨.ofEntries hrates, .ofEntries hothers, hrearranges, hascending, ?_, ?_, hagain⟩
  · rw [hreversed, hascending]
    rfl
  · exact (hsame others (.ofEntries hothers) hrearranges .descending (by decide)).2 rfl rfl

end Transform

end Quantities
