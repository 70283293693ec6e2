import Quantities.Proofs.Operator.Operands
import Quantities.Proofs.Value.Alike

/-!
# Equality of sets

Sets are compared field by field, numbers as doubles are, so that the two zeros are equal.  On well-formed
sets this is an equivalence, since no number is NaN, and the index takes no part in it, since the keys
determine it.
-/

namespace Quantities

open Binary64

namespace Value

variable {l r : Value}

def reading (value : Value) : Option ℚ :=
  value.number?.map toRat

theorem sameNumber_iff : l.SameNumber r ↔ l.reading = r.reading := by
  constructor
  · rintro (_ | h)
    · rfl
    · exact congrArg some h
  · intro h
    cases l with
    | undefined =>
        cases r with
        | undefined => exact .undefined
        | defined y => cases h
    | defined x =>
        cases r with
        | undefined => cases h
        | defined y => exact .defined (Option.some.inj h)

theorem forall₂_sameNumber_iff {first second : List Value} :
    List.Forall₂ SameNumber first second ↔ first.map reading = second.map reading := by
  rw [← List.forall₂_eq_eq_eq, List.forall₂_map_left_iff, List.forall₂_map_right_iff]
  exact ⟨fun h => h.imp fun _ _ => sameNumber_iff.mp, fun h => h.imp fun _ _ => sameNumber_iff.mpr⟩

theorem beq_iff_sameNumber (hl : l.IsNormal) (hr : r.IsNormal) :
    (l == r) = true ↔ l.SameNumber r := by
  rw [sameNumber_iff]
  cases l with
  | undefined => cases r <;> simp [reading, number?, BEq.beq, instBEqValue.beq]
  | defined x =>
      cases r with
      | undefined => simp [reading, number?, BEq.beq, instBEqValue.beq]
      | defined y =>
          show (x == y) = true ↔ some (toRat x) = some (toRat y)
          rw [beq_iff (isNaN_of_isFinite hl) (isNaN_of_isFinite hr), Option.some.injEq]

theorem beq_list_iff_sameNumber {first second : List Value} (hfirst : ∀ value ∈ first, value.IsNormal)
    (hsecond : ∀ value ∈ second, value.IsNormal) :
    (first == second) = true ↔ List.Forall₂ SameNumber first second := by
  induction first generalizing second with
  | nil => cases second <;> simp
  | cons l rest ih =>
      cases second with
      | nil => simp
      | cons r later =>
          rw [List.forall_mem_cons] at hfirst hsecond
          rw [List.cons_beq_cons, Bool.and_eq_true, beq_iff_sameNumber hfirst.1 hsecond.1,
            ih hfirst.2 hsecond.2, List.forall₂_cons]

end Value

namespace KeyedSet

variable {s t u : KeyedSet}

/-- Have the same name, kind and keys, and under each key both are undefined or hold equal numbers. -/
structure Matches (s t : KeyedSet) : Prop extends SameFrame s t where
  sameNumber : List.Forall₂ Value.SameNumber s.values t.values

/-! ## An equivalence -/

theorem Matches.refl (s : KeyedSet) : s.Matches s :=
  ⟨⟨rfl, rfl, rfl⟩, Value.forall₂_sameNumber_iff.mpr rfl⟩

theorem Matches.symm (h : s.Matches t) : t.Matches s :=
  ⟨h.toSameFrame.symm,
    Value.forall₂_sameNumber_iff.mpr (Value.forall₂_sameNumber_iff.mp h.sameNumber).symm⟩

theorem Matches.trans (hst : s.Matches t) (htu : t.Matches u) : s.Matches u :=
  ⟨hst.toSameFrame.trans htu.toSameFrame,
    Value.forall₂_sameNumber_iff.mpr ((Value.forall₂_sameNumber_iff.mp hst.sameNumber).trans
      (Value.forall₂_sameNumber_iff.mp htu.sameNumber))⟩

/-! ## Equality by fields -/

theorem WellFormed.beq_index (hs : s.WellFormed) (ht : t.WellFormed) (hkeys : s.keys = t.keys) :
    (s.index == t.index) = true := by
  rw [hs.index_eq, ht.index_eq, hkeys]
  exact Std.TreeMap.Equiv.beq .rfl

theorem beq_eq_true_iff : (s == t) = true ↔ s.name = t.name ∧ s.kind = t.kind ∧ s.keys = t.keys ∧
    (s.values == t.values) = true ∧ (s.index == t.index) = true := by
  show (s.name == t.name && (s.kind == t.kind && (s.keyArray == t.keyArray &&
    (s.valueArray == t.valueArray && s.index == t.index)))) = true ↔ _
  rw [keys, keys, values, values, Array.beq_toList, Array.toList_inj]
  simp only [Bool.and_eq_true, beq_iff_eq]

/-- Well-formed sets are equal when they match; their indices have no say. -/
theorem WellFormed.beq_iff_matches (hs : s.WellFormed) (ht : t.WellFormed) :
    (s == t) = true ↔ s.Matches t := by
  rw [beq_eq_true_iff, Value.beq_list_iff_sameNumber hs.isNormal ht.isNormal]
  constructor
  · rintro ⟨hname, hkind, hkeys, hvalues, -⟩
    exact ⟨⟨hname, hkind, hkeys⟩, hvalues⟩
  · rintro ⟨⟨hname, hkind, hkeys⟩, hvalues⟩
    exact ⟨hname, hkind, hkeys, hvalues, hs.beq_index ht hkeys⟩

/-! ## Values under keys -/

theorem SameFrame.forall₂_values_iff (h : SameFrame s t) (hs : s.WellFormed) (ht : t.WellFormed)
    {R : Value → Value → Prop} :
    List.Forall₂ R s.values t.values ↔ ∀ key ∈ s.keys, R (s.get key) (t.get key) := by
  rw [← hs.map_get_keys, ← ht.map_get_keys, ← h.keys_eq, List.forall₂_map_left_iff,
    List.forall₂_map_right_iff, List.forall₂_same]

theorem Matches.alike_get (h : s.Matches t) (hs : s.WellFormed) (ht : t.WellFormed) (key : String) :
    (s.get key).Alike (t.get key) := by
  by_cases hkey : key ∈ s.keys
  · have hsame := (h.forall₂_values_iff hs ht).mp h.sameNumber key hkey
    exact hsame.alike (hs.isNormal_get key) (ht.isNormal_get key)
  · have habsent : key ∉ t.keys := by
      rw [← h.keys_eq]
      exact hkey
    rw [hs.get_of_notMem hkey, ht.get_of_notMem habsent]
    exact .undefined

theorem Matches.forall₂_alike (h : s.Matches t) (hs : s.WellFormed) (ht : t.WellFormed) :
    List.Forall₂ Value.Alike s.values t.values :=
  (h.forall₂_values_iff hs ht).mpr fun key _ => h.alike_get hs ht key

theorem Matches.alike_scalarValue (h : s.Matches t) (hs : s.WellFormed) (ht : t.WellFormed) :
    s.scalarValue.Alike t.scalarValue := by
  have hvalues := h.forall₂_alike hs ht
  rw [scalarValue_eq_headD, scalarValue_eq_headD]
  generalize s.values = first, t.values = second at hvalues ⊢
  cases hvalues with
  | nil => exact .undefined
  | cons hhead _ => exact hhead

end KeyedSet

end Quantities
