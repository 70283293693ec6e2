import Quantities.Reduction
import Quantities.Proofs.Binary64.Order
import Quantities.Proofs.Operator.Pairing

/-!
# Extrema of merged sets

Merging keyed sets by their larger or smaller values gives the largest or smallest value under each key,
however the merges are ordered and grouped, and so the number that the reduction of the same name finds.
The infinity that stands for a missing operand is never the answer.
-/

namespace Quantities

open Binary64 KeyedSet

inductive Extremum where
  | largest
  | smallest

namespace Extremum

variable (extremum : Extremum) {x y m : Float}

def operator : Extremum → Operator
  | .largest => .mergeMaximum
  | .smallest => .mergeMinimum

def reduction : Extremum → Reduction
  | .largest => .maximum
  | .smallest => .minimum

/-- Of two numbers, the one that lies further to the end. -/
def pick : Extremum → Float → Float → Float
  | .largest => larger
  | .smallest => smaller

def neutral : Extremum → Float
  | .largest => -infinity
  | .smallest => infinity

def Bounds : Extremum → Float → Float → Prop
  | .largest, m, x => x ≤ m
  | .smallest, m, x => m ≤ x

/-- The position of a number, growing to the end of the extremum. -/
def rank : Extremum → Float → ℚ
  | .largest, x => toRat x
  | .smallest, x => -toRat x

theorem bounds_iff (hm : m.isNaN = false) (hx : x.isNaN = false) :
    extremum.Bounds m x ↔ extremum.rank x ≤ extremum.rank m := by
  cases extremum with
  | largest => exact le_iff hx hm
  | smallest => exact (le_iff hm hx).trans neg_le_neg_iff.symm

theorem beq_iff_rank_eq (hx : x.isNaN = false) (hy : y.isNaN = false) :
    (x == y) = true ↔ extremum.rank x = extremum.rank y := by
  cases extremum with
  | largest => exact beq_iff hx hy
  | smallest => exact (beq_iff hx hy).trans neg_inj.symm

theorem pick_eq_or (x y : Float) : extremum.pick x y = x ∨ extremum.pick x y = y := by
  cases extremum with
  | largest => exact larger_eq_or x y
  | smallest => exact smaller_eq_or x y

theorem rank_pick (hx : x.isNaN = false) (hy : y.isNaN = false) :
    extremum.rank (extremum.pick x y) = max (extremum.rank x) (extremum.rank y) := by
  cases extremum with
  | largest => exact toRat_larger hx hy
  | smallest =>
      show -toRat (smaller x y) = max (-toRat x) (-toRat y)
      rw [toRat_smaller hx hy, max_neg_neg]

theorem isNaN_pick (hx : x.isNaN = false) (hy : y.isNaN = false) :
    (extremum.pick x y).isNaN = false := by
  rcases extremum.pick_eq_or x y with hpick | hpick
  · rwa [hpick]
  · rwa [hpick]

theorem isNaN_neutral : extremum.neutral.isNaN = false := by
  cases extremum <;> rfl

theorem rank_neutral : extremum.rank extremum.neutral = -beyond := by
  cases extremum with
  | largest =>
      show toRat (-infinity) = -beyond
      rw [toRat_neg, toRat_infinity]
  | smallest =>
      show -toRat infinity = -beyond
      rw [toRat_infinity]

theorem rank_neutral_lt (hx : x.isFinite = true) :
    extremum.rank extremum.neutral < extremum.rank x := by
  have hinside := abs_lt.mp ((isFinite_iff (isNaN_of_isFinite hx)).mp hx)
  rw [rank_neutral]
  cases extremum with
  | largest => exact hinside.1
  | smallest => exact neg_lt_neg hinside.2

/-- The neutral infinity gives way to every finite number. -/
theorem pick_neutral_right (hx : x.isFinite = true) : extremum.pick x extremum.neutral = x := by
  have hrank := extremum.rank_pick (isNaN_of_isFinite hx) extremum.isNaN_neutral
  have hlt := extremum.rank_neutral_lt hx
  rw [max_eq_left hlt.le] at hrank
  refine (extremum.pick_eq_or x extremum.neutral).resolve_right fun hpick => ?_
  rw [hpick] at hrank
  exact hlt.ne hrank

theorem pick_neutral_left (hx : x.isFinite = true) : extremum.pick extremum.neutral x = x := by
  have hrank := extremum.rank_pick extremum.isNaN_neutral (isNaN_of_isFinite hx)
  have hlt := extremum.rank_neutral_lt hx
  rw [max_eq_right hlt.le] at hrank
  refine (extremum.pick_eq_or extremum.neutral x).resolve_left fun hpick => ?_
  rw [hpick] at hrank
  exact hlt.ne hrank

/-! ## Merged values -/

theorem ofFloat_of_isFinite (hx : x.isFinite = true) : Value.ofFloat x = .defined x := by
  rw [Value.ofFloat, if_pos hx]

theorem isFinite_pick (hx : x.isFinite = true) (hy : y.isFinite = true) :
    (extremum.pick x y).isFinite = true := by
  rcases extremum.pick_eq_or x y with hpick | hpick
  · rwa [hpick]
  · rwa [hpick]

section Rule

variable (epsilon : Float)

theorem rule_defined (hx : x.isFinite = true) (hy : y.isFinite = true) :
    extremum.operator.rule epsilon (.defined x) (.defined y) = .defined (extremum.pick x y) := by
  rw [← ofFloat_of_isFinite (extremum.isFinite_pick hx hy)]
  cases extremum <;> rfl

theorem rule_undefined_right (hx : x.isFinite = true) :
    extremum.operator.rule epsilon (.defined x) .undefined = .defined x := by
  have hrule : extremum.operator.rule epsilon (.defined x) .undefined =
      .ofFloat (extremum.pick x extremum.neutral) := by
    cases extremum <;> rfl
  rw [hrule, extremum.pick_neutral_right hx, ofFloat_of_isFinite hx]

theorem rule_undefined_left (hx : x.isFinite = true) :
    extremum.operator.rule epsilon .undefined (.defined x) = .defined x := by
  have hrule : extremum.operator.rule epsilon .undefined (.defined x) =
      .ofFloat (extremum.pick extremum.neutral x) := by
    cases extremum <;> rfl
  rw [hrule, extremum.pick_neutral_left hx, ofFloat_of_isFinite hx]

end Rule

/-- Is the extremum of the defined values among some values, undefined without any. -/
def IsExtremumOf (merged : Value) (values : List Value) : Prop :=
  match merged with
  | .undefined => ∀ value ∈ values, value = .undefined
  | .defined m => .defined m ∈ values ∧ ∀ x, .defined x ∈ values → extremum.Bounds m x

variable {extremum} {l r : Value} {first second : List Value}

/-- A step of merging: the rule of the operator finds the extremum of both sides. -/
theorem IsExtremumOf.append (hl : extremum.IsExtremumOf l first) (hr : extremum.IsExtremumOf r second)
    (hfirst : ∀ value ∈ first, value.IsNormal) (hsecond : ∀ value ∈ second, value.IsNormal)
    (epsilon : Float) :
    extremum.IsExtremumOf (extremum.operator.rule epsilon l r) (first ++ second) := by
  cases l with
  | undefined =>
      cases r with
      | undefined =>
          intro value hvalue
          exact (List.mem_append.mp hvalue).elim (hl value) (hr value)
      | defined n =>
          rw [extremum.rule_undefined_left epsilon (hsecond _ hr.1)]
          refine ⟨List.mem_append_right _ hr.1, fun x hx => ?_⟩
          rcases List.mem_append.mp hx with hx | hx
          · cases hl _ hx
          · exact hr.2 x hx
  | defined m =>
      have hm : m.isFinite = true := hfirst _ hl.1
      cases r with
      | undefined =>
          rw [extremum.rule_undefined_right epsilon hm]
          refine ⟨List.mem_append_left _ hl.1, fun x hx => ?_⟩
          rcases List.mem_append.mp hx with hx | hx
          · exact hl.2 x hx
          · cases hr _ hx
      | defined n =>
          have hn : n.isFinite = true := hsecond _ hr.1
          have hmnan := isNaN_of_isFinite hm
          have hnnan := isNaN_of_isFinite hn
          have hpick := extremum.isNaN_pick hmnan hnnan
          rw [extremum.rule_defined epsilon hm hn]
          refine ⟨?_, fun x hx => ?_⟩
          · rcases extremum.pick_eq_or m n with hsame | hsame
            · rw [hsame]
              exact List.mem_append_left _ hl.1
            · rw [hsame]
              exact List.mem_append_right _ hr.1
          · rcases List.mem_append.mp hx with hx | hx
            · have hxnan := isNaN_of_isFinite (hfirst _ hx)
              rw [extremum.bounds_iff hpick hxnan, extremum.rank_pick hmnan hnnan]
              exact ((extremum.bounds_iff hmnan hxnan).mp (hl.2 x hx)).trans (le_max_left _ _)
            · have hxnan := isNaN_of_isFinite (hsecond _ hx)
              rw [extremum.bounds_iff hpick hxnan, extremum.rank_pick hmnan hnnan]
              exact ((extremum.bounds_iff hnnan hxnan).mp (hr.2 x hx)).trans (le_max_right _ _)

/-- Values with the same numbers among them have equal extrema. -/
theorem IsExtremumOf.beq (hl : extremum.IsExtremumOf l first) (hr : extremum.IsExtremumOf r second)
    (hfirst : ∀ value ∈ first, value.IsNormal)
    (hsame : ∀ x, .defined x ∈ first ↔ .defined x ∈ second) : (l == r) = true := by
  cases l with
  | undefined =>
      cases r with
      | undefined => rfl
      | defined n => cases hl _ ((hsame n).mpr hr.1)
  | defined m =>
      cases r with
      | undefined => cases hr _ ((hsame m).mp hl.1)
      | defined n =>
          have hm := isNaN_of_isFinite (hfirst _ hl.1)
          have hn := isNaN_of_isFinite (hfirst _ ((hsame n).mpr hr.1))
          have hle := (extremum.bounds_iff hn hm).mp (hr.2 m ((hsame m).mp hl.1))
          have hge := (extremum.bounds_iff hm hn).mp (hl.2 n ((hsame n).mpr hr.1))
          show (m == n) = true
          rw [extremum.beq_iff_rank_eq hm hn]
          exact le_antisymm hle hge

/-! ## Reduced values -/

variable (extremum)

theorem foldl_pick (xs : List Float) {start : Float} (hstart : start.isNaN = false)
    (hxs : ∀ x ∈ xs, x.isNaN = false) :
    (xs.foldl extremum.pick start = start ∨ xs.foldl extremum.pick start ∈ xs) ∧
      extremum.rank start ≤ extremum.rank (xs.foldl extremum.pick start) ∧
      ∀ x ∈ xs, extremum.rank x ≤ extremum.rank (xs.foldl extremum.pick start) := by
  induction xs generalizing start with
  | nil => exact ⟨.inl rfl, le_rfl, by simp⟩
  | cons x rest ih =>
      have hx := hxs x List.mem_cons_self
      obtain ⟨hfound, hstep, hrest⟩ := ih (extremum.isNaN_pick hstart hx)
        fun y hy => hxs y (List.mem_cons_of_mem _ hy)
      rw [extremum.rank_pick hstart hx] at hstep
      rw [List.foldl_cons]
      refine ⟨?_, (le_max_left _ _).trans hstep, ?_⟩
      · rcases hfound with hsame | hmem
        · rw [hsame]
          rcases extremum.pick_eq_or start x with hpick | hpick
          · exact .inl hpick
          · rw [hpick]
            exact .inr List.mem_cons_self
        · exact .inr (List.mem_cons_of_mem _ hmem)
      · intro y hy
        rcases List.mem_cons.mp hy with rfl | hy
        · exact (le_max_right _ _).trans hstep
        · exact hrest y hy

/-- A fold from the neutral infinity cannot end where it started: every number lies further to the end. -/
theorem foldl_pick_neutral {xs : List Float} (hxs : xs ≠ []) (hfinite : ∀ x ∈ xs, x.isFinite = true) :
    xs.foldl extremum.pick extremum.neutral ∈ xs ∧
      ∀ x ∈ xs, extremum.rank x ≤ extremum.rank (xs.foldl extremum.pick extremum.neutral) := by
  obtain ⟨hfound, -, hbounds⟩ := extremum.foldl_pick xs extremum.isNaN_neutral
    fun x hx => isNaN_of_isFinite (hfinite x hx)
  refine ⟨hfound.resolve_left fun hneutral => ?_, hbounds⟩
  obtain ⟨x, hx⟩ := List.exists_mem_of_ne_nil xs hxs
  have hle := hbounds x hx
  rw [hneutral] at hle
  exact absurd hle (not_le.mpr (extremum.rank_neutral_lt (hfinite x hx)))

/-- The reduction of a set finds the extremum of its defined values. -/
theorem isExtremumOf_reduction {holder : KeyedSet}
    (hnormal : ∀ x ∈ holder.definedValues, x.isFinite = true) :
    extremum.IsExtremumOf (extremum.reduction.eval holder)
      (holder.definedValues.map Value.defined) := by
  have heval : extremum.reduction.eval holder =
      if holder.definedValues.isEmpty then .undefined
      else .ofFloat (holder.definedValues.foldl extremum.pick extremum.neutral) := by
    cases extremum <;> simp [reduction, Reduction.eval, Reduction.accepts, Reduction.ofNumbers] <;> rfl
  rw [heval]
  cases hvalues : holder.definedValues with
  | nil => simp [IsExtremumOf]
  | cons first rest =>
      rw [hvalues] at hnormal
      obtain ⟨hmem, hbounds⟩ := extremum.foldl_pick_neutral (List.cons_ne_nil first rest) hnormal
      have hfinite := hnormal _ hmem
      rw [List.isEmpty_cons, if_neg Bool.false_ne_true, ofFloat_of_isFinite hfinite]
      refine ⟨List.mem_map_of_mem hmem, fun x hx => ?_⟩
      obtain ⟨y, hy, hyx⟩ := List.mem_map.mp hx
      cases hyx
      rw [extremum.bounds_iff (isNaN_of_isFinite hfinite) (isNaN_of_isFinite (hnormal x hy))]
      exact hbounds x hy

end Extremum

/-! ## Merged sets -/

inductive MergeTree where
  | single (s : KeyedSet)
  | merge (lhs rhs : MergeTree)

namespace MergeTree

def sets : MergeTree → List KeyedSet
  | single s => [s]
  | merge lhs rhs => lhs.sets ++ rhs.sets

def eval (operator : Operator) (epsilon : Float) : MergeTree → KeyedSet
  | single s => s
  | merge lhs rhs => operator.eval epsilon (lhs.eval operator epsilon) (rhs.eval operator epsilon)

/-- Every grouping keeps the keys and finds the extremum under each of them. -/
theorem eval_spec (extremum : Extremum) (epsilon : Float) (tree : MergeTree)
    (hsets : ∀ s ∈ tree.sets, s.WellFormed ∧ s.kind.isScalar = false) :
    (tree.eval extremum.operator epsilon).WellFormed ∧
    (tree.eval extremum.operator epsilon).kind.isScalar = false ∧
    ∀ key,
      (key ∈ (tree.eval extremum.operator epsilon).keys ↔ ∃ s ∈ tree.sets, key ∈ s.keys) ∧
      extremum.IsExtremumOf ((tree.eval extremum.operator epsilon).get key)
        (tree.sets.map (·.get key)) := by
  induction tree with
  | single s =>
      obtain ⟨hwell, hkind⟩ := hsets s List.mem_cons_self
      refine ⟨hwell, hkind, fun key => ⟨by simp [sets, eval], ?_⟩⟩
      have hnormal := hwell.isNormal_get key
      show extremum.IsExtremumOf (s.get key) [s.get key]
      cases hget : s.get key with
      | undefined => simp [Extremum.IsExtremumOf]
      | defined x =>
          rw [hget] at hnormal
          have hx := isNaN_of_isFinite hnormal
          refine ⟨List.mem_cons_self, fun y hy => ?_⟩
          obtain rfl : y = x := by simpa using hy
          exact (extremum.bounds_iff hx hx).mpr le_rfl
  | merge lhs rhs ihl ihr =>
      have hleft : ∀ s ∈ lhs.sets, s.WellFormed ∧ s.kind.isScalar = false :=
        fun s hs => hsets s (List.mem_append_left _ hs)
      have hright : ∀ s ∈ rhs.sets, s.WellFormed ∧ s.kind.isScalar = false :=
        fun s hs => hsets s (List.mem_append_right _ hs)
      obtain ⟨hlwell, hlkind, hl⟩ := ihl hleft
      obtain ⟨hrwell, hrkind, hr⟩ := ihr hright
      have hkind := kind_combine_of_keyed (extremum.operator.kernel epsilon) hlkind hrkind
      refine ⟨extremum.operator.wellFormed_eval epsilon hlwell hrwell, hkind ▸ hlkind,
        fun key => ⟨?_, ?_⟩⟩
      · rw [eval, Operator.eval, keys_combine_of_keyed _ hlkind hrkind, hlwell.mem_keyUnion, (hl key).1,
          (hr key).1]
        simp only [sets, List.mem_append, or_and_right, exists_or]
      · rw [eval, extremum.operator.get_eval_of_keyed epsilon hlwell hrwell hlkind hrkind, sets,
          List.map_append]
        refine (hl key).2.append (hr key).2 ?_ ?_ epsilon
        · simpa using fun s hs => (hleft s hs).1.isNormal_get key
        · simpa using fun s hs => (hright s hs).1.isNormal_get key

/--
Merging keyed sets by their larger or smaller values.  Whatever the order and the grouping, the keys are
those of all sets, and under each key stands the extremum of the values found there: undefined without
any, and else one of them that bounds them all.  It is the answer of the reduction as well.
-/
theorem eval_extremum (extremum : Extremum) (epsilon : Float) {sets : List KeyedSet} {tree : MergeTree}
    (horder : tree.sets.Perm sets)
    (hsets : ∀ s ∈ sets, Reachable s ∧ s.kind.isScalar = false) :
    ∀ key,
      (key ∈ (tree.eval extremum.operator epsilon).keys ↔ ∃ s ∈ sets, key ∈ s.keys) ∧
      ((tree.eval extremum.operator epsilon).get key = .undefined ↔
        ∀ s ∈ sets, s.get key = .undefined) ∧
      (∀ m, (tree.eval extremum.operator epsilon).get key = .defined m →
        (∃ s ∈ sets, s.get key = .defined m) ∧
        ∀ s ∈ sets, ∀ x, s.get key = .defined x → extremum.Bounds m x) ∧
      ∀ holder : KeyedSet, (∀ x, x ∈ holder.definedValues ↔ ∃ s ∈ sets, s.get key = .defined x) →
        (extremum.reduction.eval holder == (tree.eval extremum.operator epsilon).get key) = true := by
  intro key
  have htree : ∀ s ∈ tree.sets, s.WellFormed ∧ s.kind.isScalar = false := by
    intro s hs
    obtain ⟨hreachable, hkind⟩ := hsets s (horder.mem_iff.mp hs)
    exact ⟨hreachable.wellFormed, hkind⟩
  have hnormal : ∀ s ∈ sets, (s.get key).IsNormal :=
    fun s hs => (hsets s hs).1.wellFormed.isNormal_get key
  obtain ⟨-, -, hspec⟩ := eval_spec extremum epsilon tree htree
  obtain ⟨hkeys, hextremum⟩ := hspec key
  have hmem : ∀ x, Value.defined x ∈ tree.sets.map (·.get key) ↔ ∃ s ∈ sets, s.get key = .defined x := by
    intro x
    simp only [List.mem_map, horder.mem_iff]
  refine ⟨?_, ?_, ?_, ?_⟩
  · rw [hkeys]
    simp only [horder.mem_iff]
  · cases hmerged : (tree.eval extremum.operator epsilon).get key with
    | undefined =>
        rw [hmerged] at hextremum
        refine iff_of_true rfl fun s hs => ?_
        exact hextremum _ (List.mem_map_of_mem (horder.mem_iff.mpr hs))
    | defined m =>
        rw [hmerged] at hextremum
        obtain ⟨s, hs, hget⟩ := (hmem m).mp hextremum.1
        refine iff_of_false (by simp) fun hall => ?_
        rw [hall s hs] at hget
        cases hget
  · intro m hmerged
    rw [hmerged] at hextremum
    exact ⟨(hmem m).mp hextremum.1, fun s hs x hx => hextremum.2 x ((hmem x).mpr ⟨s, hs, hx⟩)⟩
  · intro holder hholder
    have hfinite : ∀ x ∈ holder.definedValues, x.isFinite = true := by
      intro x hx
      obtain ⟨s, hs, hget⟩ := (hholder x).mp hx
      have hvalue := hnormal s hs
      rw [hget] at hvalue
      exact hvalue
    refine (extremum.isExtremumOf_reduction hfinite).beq hextremum ?_ fun x => ?_
    · simpa [Value.IsNormal] using hfinite
    · rw [hmem, ← hholder]
      simp

theorem eval_extremum_of_wells :
    let first := ((bare "WA" .well).push "P1" (.defined 3.0)).push "P2" .undefined
    let second := (bare "WB" .well).push "P1" (.defined 5.0)
    let third := ((bare "WC" .well).push "P3" (.defined (-2.0))).push "P2" .undefined
    let tree := MergeTree.merge (.single third) (.merge (.single second) (.single first))
    let merged := tree.eval Operator.mergeMaximum 0.0
    tree.sets.Perm [first, second, third] ∧
      (∀ s ∈ [first, second, third], Reachable s ∧ s.kind.isScalar = false) ∧
      "P3" ∈ merged.keys ∧ merged.get "P2" = .undefined ∧ merged.get "P1" = .defined 5.0 ∧
      ∀ s ∈ [first, second, third], ∀ x, s.get "P1" = .defined x → x ≤ 5.0 := by
  intro first second third tree merged
  have hfirst : KeyedSet.ofEntries "WA" .well [("P1", .defined 3.0), ("P2", .undefined)] =
      .ok first := rfl
  have hsecond : KeyedSet.ofEntries "WB" .well [("P1", .defined 5.0)] = .ok second := rfl
  have hthird : KeyedSet.ofEntries "WC" .well [("P3", .defined (-2.0)), ("P2", .undefined)] =
      .ok third := rfl
  have horder : tree.sets.Perm [first, second, third] := List.reverse_perm [first, second, third]
  have hsets : ∀ s ∈ [first, second, third], Reachable s ∧ s.kind.isScalar = false := by
    simp only [List.forall_mem_cons]
    exact ⟨⟨.ofEntries hfirst, rfl⟩, ⟨.ofEntries hsecond, rfl⟩, ⟨.ofEntries hthird, rfl⟩, by simp⟩
  have hmerged := eval_extremum .largest 0.0 horder hsets
  have hlargest : merged.get "P1" = .defined 5.0 := by decide +kernel
  refine ⟨horder, hsets, (hmerged "P3").1.mpr ⟨third, by simp, ?_⟩, (hmerged "P2").2.1.mpr ?_,
    hlargest, ((hmerged "P1").2.2.1 5.0 hlargest).2⟩
  · decide +kernel
  · simp only [List.forall_mem_cons]
    exact ⟨rfl, rfl, rfl, by simp⟩

end MergeTree

end Quantities
