import Quantities.Proofs.KeyedSet.ScalarShape

/-!
# The algebra of the union of keys

The union starts from the first set with all its values cleared, and appends an undefined entry for every
key that only the second set holds.  It is associative, so a chain of unions lays out the same keys in the
same order however it is grouped, and it changes no position of the first set.
-/

namespace Quantities

namespace KeyedSet

variable {s t u : KeyedSet} {key : String} {i : Nat}

/-- Every value of a union is undefined. -/
theorem WellFormed.values_keyUnion (h : s.WellFormed) :
    (s.keyUnion t).values = List.replicate (s.keyUnion t).keys.length .undefined := by
  have hcleared : (s.mapValues fun _ => .undefined).values =
      List.replicate s.keys.length .undefined := by
    rw [values_mapValues, List.map_const', h.length_values]
    rfl
  rw [keys_keyUnion, List.length_append, keyUnion_eq_extend, values_extend, hcleared, List.map_map,
    ← List.replicate_append_replicate]
  exact congrArg (_ ++ ·) (List.map_const' ..)

/-! ## Order of keys -/

/-- What a union lacks is what its second operand lacks, less the keys of the first. -/
theorem WellFormed.missingKeys_keyUnion_left (hs : s.WellFormed) (ht : t.WellFormed) :
    (s.keyUnion t).missingKeys u = (t.missingKeys u).filter fun key => key ∉ s.keys := by
  rw [(hs.keyUnion ht).missingKeys_eq, ht.missingKeys_eq, List.filter_filter]
  apply List.filter_congr
  intro key _
  rw [Bool.eq_iff_iff, Bool.and_eq_true, decide_eq_true_iff, decide_eq_true_iff, decide_eq_true_iff,
    hs.mem_keyUnion, not_or]

/-- A set lacks of a union what it lacks of the first operand, and then what it lacks of the rest. -/
theorem WellFormed.missingKeys_keyUnion_right (hs : s.WellFormed) :
    s.missingKeys (t.keyUnion u) =
      s.missingKeys t ++ (t.missingKeys u).filter fun key => key ∉ s.keys := by
  rw [hs.missingKeys_eq, hs.missingKeys_eq, keys_keyUnion, List.filter_append]

theorem WellFormed.keys_keyUnion_assoc (hs : s.WellFormed) (ht : t.WellFormed) :
    ((s.keyUnion t).keyUnion u).keys = (s.keyUnion (t.keyUnion u)).keys := by
  rw [keys_keyUnion, keys_keyUnion s t, keys_keyUnion, hs.missingKeys_keyUnion_left ht,
    hs.missingKeys_keyUnion_right, List.append_assoc]

theorem WellFormed.keyUnion_assoc (hs : s.WellFormed) (ht : t.WellFormed) (hu : u.WellFormed) :
    (s.keyUnion t).keyUnion u = s.keyUnion (t.keyUnion u) := by
  have hleft := hs.keyUnion ht
  have hkeys := hs.keys_keyUnion_assoc (u := u) ht
  refine (hleft.keyUnion hu).ext (hs.keyUnion (ht.keyUnion hu)) ?_ ?_ hkeys ?_
  · rw [name_keyUnion, name_keyUnion, name_keyUnion]
  · rw [kind_keyUnion, kind_keyUnion, kind_keyUnion]
  · rw [hleft.values_keyUnion, hs.values_keyUnion, hkeys]

/-! ## Unions that bring no key -/

/-- A union clears its first operand and does no more exactly when it brings no new key. -/
theorem WellFormed.keyUnion_eq_clear_iff (h : s.WellFormed) :
    s.keyUnion t = Transform.clear.eval s ↔ t.keys ⊆ s.keys := by
  constructor
  · intro heq
    have hsize : (s.keyUnion t).size = s.size := by
      rw [heq]
      rfl
    exact h.size_keyUnion_eq_iff.mp hsize
  · intro hkeys
    rw [KeyedSet.keyUnion, h.missingKeys_eq_nil_iff.mpr hkeys]
    rfl

/-! ## Positions -/

/-- The keys of the first operand stay where they are. -/
theorem WellFormed.position?_keyUnion (hs : s.WellFormed) (ht : t.WellFormed) (hkey : key ∈ s.keys) :
    (s.keyUnion t).position? key = s.position? key := by
  obtain ⟨i, hi⟩ := List.mem_iff_getElem?.mp hkey
  have hlt : i < s.keys.length := (List.getElem?_eq_some_iff.mp hi).1
  rw [hs.position?_eq_some_iff.mpr hi, (hs.keyUnion ht).position?_eq_some_iff, keys_keyUnion,
    List.getElem?_append_left hlt, hi]

/-- The new keys stand behind them, in the order of the second operand. -/
theorem WellFormed.position?_keyUnion_of_missing (hs : s.WellFormed) (ht : t.WellFormed)
    (hkey : (s.missingKeys t)[i]? = some key) :
    (s.keyUnion t).position? key = some (s.size + i) := by
  rw [(hs.keyUnion ht).position?_eq_some_iff, keys_keyUnion,
    List.getElem?_append_right (by rw [length_keys]; omega), length_keys, Nat.add_sub_cancel_left, hkey]

/--
The algebra of the union of keys, for sets of any kinds.

- Unions may be regrouped: the results are the same set, index and order of keys included.
- A union is its first operand cleared exactly when the second one brings no new key; in particular the union
  of a set with itself is.
- The keys of the first operand come first and keep their positions.  Behind them stand the keys that only
  the second one holds, in its order.
-/
theorem keyUnion_algebra {a b c : KeyedSet} (ha : Reachable a) (hb : Reachable b) (hc : Reachable c) :
    (a.keyUnion b).keyUnion c = a.keyUnion (b.keyUnion c) ∧
    (a.keyUnion b = Transform.clear.eval a ↔ b.keys ⊆ a.keys) ∧
    a.keyUnion a = Transform.clear.eval a ∧
    a.keys <+: (a.keyUnion b).keys ∧
    (∀ key ∈ a.keys, (a.keyUnion b).position? key = a.position? key) ∧
    (a.keyUnion b).keys = a.keys ++ b.keys.filter (fun key => key ∉ a.keys) ∧
    ∀ key i, (b.keys.filter fun key => key ∉ a.keys)[i]? = some key →
      (a.keyUnion b).position? key = some (a.size + i) := by
  have hawell := ha.wellFormed
  have hbwell := hb.wellFormed
  have hself : a.keyUnion a = Transform.clear.eval a :=
    hawell.keyUnion_eq_clear_iff.mpr (List.Subset.refl _)
  have hkeys : (a.keyUnion b).keys = a.keys ++ b.keys.filter (fun key => key ∉ a.keys) := by
    rw [keys_keyUnion, hawell.missingKeys_eq]
  refine ⟨hawell.keyUnion_assoc hbwell hc.wellFormed, hawell.keyUnion_eq_clear_iff, hself, ?_,
    fun key hkey => hawell.position?_keyUnion hbwell hkey, hkeys, fun key i hkey => ?_⟩
  · rw [hkeys]
    exact List.prefix_append _ _
  · rw [← hawell.missingKeys_eq] at hkey
    exact hawell.position?_keyUnion_of_missing hbwell hkey

theorem keyUnion_algebra_of_kinds :
    let wells := ((bare "WA" .well).push "P1" (.defined 3.0)).push "P2" .undefined
    let total := KeyedSet.field "FB" (.defined 2.0)
    let groups := (((bare "GA" .group).push "G1" .undefined).push "P1" (.defined 1.0)).push "FIELD"
      (.defined (-0.0))
    Reachable wells ∧ Reachable total ∧ Reachable groups ∧
      (wells.keyUnion total).keyUnion groups = wells.keyUnion (total.keyUnion groups) ∧
      wells.keyUnion wells = Transform.clear.eval wells ∧
      (wells.keyUnion total ≠ Transform.clear.eval wells) ∧
      wells.keys <+: (wells.keyUnion groups).keys ∧
      (wells.keyUnion groups).keys = ["P1", "P2", "G1", "FIELD"] ∧
      (wells.keyUnion groups).position? "P1" = wells.position? "P1" ∧
      (wells.keyUnion groups).position? "FIELD" = some 3 := by
  intro wells total groups
  have hentries : KeyedSet.ofEntries "WA" .well [("P1", .defined 3.0), ("P2", .undefined)] =
      .ok wells := rfl
  have hgroupEntries : KeyedSet.ofEntries "GA" .group
      [("G1", .undefined), ("P1", .defined 1.0), ("FIELD", .defined (-0.0))] = .ok groups := rfl
  have hwells : Reachable wells := .ofEntries hentries
  have hgroups : Reachable groups := .ofEntries hgroupEntries
  have htotal : Reachable total := .field "FB" (.defined 2.0)
  obtain ⟨hassoc, hclear, hself, -⟩ := keyUnion_algebra hwells htotal hgroups
  obtain ⟨-, -, -, hprefix, hpositions, hkeys, happended⟩ := keyUnion_algebra hwells hgroups htotal
  refine ⟨hwells, htotal, hgroups, hassoc, hself, ?_, hprefix, ?_, hpositions "P1" ?_,
    happended "FIELD" 1 ?_⟩
  · rw [ne_eq, hclear]
    decide +kernel
  · rw [hkeys]
    decide +kernel
  all_goals decide +kernel

end KeyedSet

end Quantities
