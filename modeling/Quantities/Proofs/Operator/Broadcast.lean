import Quantities.Proofs.Operator.Pairing

/-!
# Broadcasting of scalar-typed sets

A scalar-typed operand acts like the keyed set that repeats its value under every key of the other
operand, so broadcasting says nothing that the pairing of keyed sets does not.
-/

namespace Quantities

namespace KeyedSet

variable {s t keyed single spread : KeyedSet} {value : Value}

/-! ## Sets that repeat a value -/

/-- Has the kind and the keys of a keyed set, and the same value under every key. -/
structure Repeats (spread keyed : KeyedSet) (value : Value) : Prop where
  kind_eq : spread.kind = keyed.kind
  keys_eq : spread.keys = keyed.keys
  eq_value : ∀ stored ∈ spread.values, stored = value

theorem repeats_assignAll (h : value.IsNormal) (keyed : KeyedSet) :
    (keyed.assignAll value).Repeats keyed value where
  kind_eq := rfl
  keys_eq := rfl
  eq_value stored hstored := by
    rw [assignAll, values_mapValues, List.mem_map] at hstored
    obtain ⟨_, -, rfl⟩ := hstored
    exact Value.normalized_of_isNormal h

theorem Repeats.get_eq (h : spread.Repeats keyed value) (hspread : spread.WellFormed) {key : String}
    (hkey : key ∈ keyed.keys) : spread.get key = value := by
  rw [← h.keys_eq] at hkey
  apply h.eq_value
  rw [← hspread.map_get_keys]
  exact List.mem_map_of_mem hkey

/-- Two sets over the same keys keep them, and are combined value by value. -/
theorem combine_of_keys_eq (f : Value → Value → Value) (hs : s.WellFormed) (ht : t.WellFormed)
    (hskind : s.kind.isScalar = false) (htkind : t.kind.isScalar = false)
    (hkeys : t.keys = s.keys) :
    (combine f s t).keys = s.keys ∧
    (combine f s t).values = s.keys.map fun key => (f (s.get key) (t.get key)).normalized := by
  have hnone : s.missingKeys t = [] := by
    rw [hs.missingKeys_eq_nil_iff, hkeys]
    exact List.Subset.refl _
  have hunion : (s.keyUnion t).keys = s.keys := by
    rw [keys_keyUnion, hnone, List.append_nil]
  rw [keys_combine_of_keyed f hskind htkind, values_combine_of_keyed f hs ht hskind htkind, hunion]
  exact ⟨rfl, rfl⟩

/-- Broadcasting on the right is pairing with the set that repeats the value. -/
theorem combine_repeats_right (f : Value → Value → Value) (hkeyed : keyed.WellFormed)
    (hspread : spread.WellFormed) (hkind : keyed.kind.isScalar = false)
    (hsingle : single.kind.isScalar = true) (h : spread.Repeats keyed single.scalarValue) :
    combine f keyed single = combine f keyed spread := by
  have hskind : spread.kind.isScalar = false := by rw [h.kind_eq]; exact hkind
  obtain ⟨hkeys, hvalues⟩ := combine_of_keys_eq f hkeyed hspread hkind hskind h.keys_eq
  rw [combine_of_scalar_right f hsingle]
  refine (hkeyed.mapValues _).ext (hkeyed.combine hspread f) ?_ ?_ ?_ ?_
  · rw [name_mapValues, name_combine_of_keyed f hkind hskind]
  · rw [kind_mapValues, kind_combine_of_keyed f hkind hskind]
  · rw [keys_mapValues, hkeys]
  · rw [hkeyed.values_mapValues_keys, hvalues]
    apply List.map_congr_left
    intro key hkey
    rw [h.get_eq hspread hkey]

/-- Broadcasting on the left is pairing with the set that repeats the value, but for the name. -/
theorem combine_repeats_left (f : Value → Value → Value) (hkeyed : keyed.WellFormed)
    (hspread : spread.WellFormed) (hkind : keyed.kind.isScalar = false)
    (hsingle : single.kind.isScalar = true) (h : spread.Repeats keyed single.scalarValue) :
    combine f single keyed = (combine f spread keyed).renamed single.name := by
  have hskind : spread.kind.isScalar = false := by rw [h.kind_eq]; exact hkind
  obtain ⟨hkeys, hvalues⟩ := combine_of_keys_eq f hspread hkeyed hskind hkind h.keys_eq.symm
  rw [combine_of_scalar_left f hsingle hkind]
  refine ((hkeyed.mapValues _).renamed _).ext ((hspread.combine hkeyed f).renamed _) rfl ?_ ?_ ?_
  · rw [kind_renamed, kind_renamed, kind_mapValues, kind_combine_of_keyed f hskind hkind, h.kind_eq]
  · rw [keys_renamed, keys_renamed, keys_mapValues, hkeys, h.keys_eq]
  · rw [values_renamed, values_renamed, hkeyed.values_mapValues_keys, hvalues, h.keys_eq]
    apply List.map_congr_left
    intro key hkey
    rw [h.get_eq hspread hkey]

/-! ## Sets with one entry -/

theorem WellFormed.values_of_size_eq_one (h : s.WellFormed) (hsize : s.size = 1) :
    s.values = [s.scalarValue] := by
  have hlength := h.length_values
  rw [length_keys, hsize] at hlength
  obtain ⟨value, hvalue⟩ := List.length_eq_one_iff.mp hlength
  rw [scalarValue_eq_headD, hvalue]
  rfl

theorem values_combine_of_scalars (f : Value → Value → Value) (hs : s.WellFormed)
    (hsize : s.size = 1) (ht : t.kind.isScalar = true) :
    (combine f s t).values = [(f s.scalarValue t.scalarValue).normalized] := by
  rw [combine_of_scalar_right f ht, values_mapValues, hs.values_of_size_eq_one hsize]
  rfl

end KeyedSet

namespace Operator

open KeyedSet

variable (operator : Operator) (epsilon : Float) {keyed single : KeyedSet}

/-! ## Entries of broadcast results -/

theorem keys_eval_of_scalar_right (hsingle : single.kind.isScalar = true) :
    (operator.eval epsilon keyed single).keys = keyed.keys := by
  rw [eval, combine_of_scalar_right _ hsingle, keys_mapValues]

theorem keys_eval_of_scalar_left (hkind : keyed.kind.isScalar = false)
    (hsingle : single.kind.isScalar = true) :
    (operator.eval epsilon single keyed).keys = keyed.keys := by
  rw [eval, combine_of_scalar_left _ hsingle hkind, keys_renamed, keys_mapValues]

theorem get_eval_of_scalar_right (hkeyed : keyed.WellFormed)
    (hsingle : single.kind.isScalar = true) {key : String} (hkey : key ∈ keyed.keys) :
    (operator.eval epsilon keyed single).get key =
      operator.rule epsilon (keyed.get key) single.scalarValue := by
  rw [eval, combine_of_scalar_right _ hsingle, hkeyed.get_mapValues _ hkey,
    normalized_kernel]

theorem get_eval_of_scalar_left (hkeyed : keyed.WellFormed) (hkind : keyed.kind.isScalar = false)
    (hsingle : single.kind.isScalar = true) {key : String} (hkey : key ∈ keyed.keys) :
    (operator.eval epsilon single keyed).get key =
      operator.rule epsilon single.scalarValue (keyed.get key) := by
  rw [eval, combine_of_scalar_left _ hsingle hkind, get_renamed, hkeyed.get_mapValues _ hkey,
    normalized_kernel]

theorem get_eval_of_undefined_right (hkeyed : keyed.WellFormed) (hwell : single.WellFormed)
    (hsingle : single.kind.isScalar = true) (hundefined : single.scalarValue = .undefined)
    (key : String) :
    (operator.eval epsilon keyed single).get key =
      operator.rule epsilon (keyed.get key) .undefined := by
  have hkeys : (operator.eval epsilon keyed single).keys = keyed.keys :=
    operator.keys_eval_of_scalar_right epsilon hsingle
  refine (operator.wellFormed_eval epsilon hkeyed hwell).get_of_keys_eq hkeyed hkeys
    (fun l => operator.rule epsilon l .undefined) rfl ?_ key
  intro held hheld
  rw [operator.get_eval_of_scalar_right epsilon hkeyed hsingle hheld, hundefined]

theorem get_eval_of_undefined_left (hkeyed : keyed.WellFormed) (hwell : single.WellFormed)
    (hkind : keyed.kind.isScalar = false) (hsingle : single.kind.isScalar = true)
    (hundefined : single.scalarValue = .undefined) (key : String) :
    (operator.eval epsilon single keyed).get key =
      operator.rule epsilon .undefined (keyed.get key) := by
  have hkeys : (operator.eval epsilon single keyed).keys = keyed.keys :=
    operator.keys_eval_of_scalar_left epsilon hkind hsingle
  refine (operator.wellFormed_eval epsilon hwell hkeyed).get_of_keys_eq hkeyed hkeys
    (operator.rule epsilon .undefined) rfl ?_ key
  intro held hheld
  rw [operator.get_eval_of_scalar_left epsilon hkeyed hkind hsingle hheld, hundefined]

/-- Broadcasting agrees with pairing, and an undefined scalar counts as a missing operand. -/
theorem eval_broadcast (hsingle : Reachable single) (hkind : single.kind.isScalar = true)
    (hsize : single.size = 1) :
    (∀ keyed spread, Reachable keyed → Reachable spread → keyed.kind.isScalar = false →
      spread.Repeats keyed single.scalarValue →
      operator.eval epsilon keyed single = operator.eval epsilon keyed spread ∧
      operator.eval epsilon single keyed =
        (operator.eval epsilon spread keyed).renamed single.name ∧
      (operator.eval epsilon single keyed).kind = keyed.kind ∧
      (operator.eval epsilon single keyed).keys = keyed.keys) ∧
    (∀ other, other.kind.isScalar = true →
      (operator.eval epsilon single other).name = single.name ∧
      (operator.eval epsilon single other).kind = single.kind ∧
      (operator.eval epsilon single other).keys = single.keys ∧
      (operator.eval epsilon single other).values =
        [operator.rule epsilon single.scalarValue other.scalarValue]) ∧
    (single.scalarValue = .undefined → ∀ keyed, Reachable keyed → keyed.kind.isScalar = false →
      ∀ key,
        (operator.eval epsilon keyed single).get key =
          operator.rule epsilon (keyed.get key) .undefined ∧
        (operator.eval epsilon single keyed).get key =
          operator.rule epsilon .undefined (keyed.get key)) := by
  have hwell := hsingle.wellFormed
  refine ⟨?_, ?_, ?_⟩
  · intro keyed spread hkeyed hspread hkeyedkind h
    refine ⟨combine_repeats_right _ hkeyed.wellFormed hspread.wellFormed hkeyedkind hkind h,
      combine_repeats_left _ hkeyed.wellFormed hspread.wellFormed hkeyedkind hkind h, ?_,
      operator.keys_eval_of_scalar_left epsilon hkeyedkind hkind⟩
    rw [eval, combine_of_scalar_left _ hkind hkeyedkind, kind_renamed, kind_mapValues]
  · intro other hother
    refine ⟨?_, ?_, operator.keys_eval_of_scalar_right epsilon hother, ?_⟩
    · rw [eval, combine_of_scalar_right _ hother, name_mapValues]
    · rw [eval, combine_of_scalar_right _ hother, kind_mapValues]
    · rw [eval, values_combine_of_scalars _ hwell hsize hother, normalized_kernel]
  · intro hundefined keyed hkeyed hkeyedkind key
    have hkeyedwell := hkeyed.wellFormed
    exact ⟨operator.get_eval_of_undefined_right epsilon hkeyedwell hwell hkind hundefined key,
      operator.get_eval_of_undefined_left epsilon hkeyedwell hwell hkeyedkind hkind hundefined key⟩

theorem eval_broadcast_subtract :
    let rates := ((bare "WA" .well).push "P1" (.defined 3.0)).push "P2" .undefined
    let offset := KeyedSet.field "FB" (.defined 2.0)
    let offsets := rates.assignAll (.defined 2.0)
    let missing := KeyedSet.scalar "FC" (.defined Binary64.notANumber)
    Operator.subtract.eval 0.0 rates offset = Operator.subtract.eval 0.0 rates offsets ∧
      Operator.subtract.eval 0.0 offset rates =
        (Operator.subtract.eval 0.0 offsets rates).renamed "FB" ∧
      (Operator.subtract.eval 0.0 offset missing).values = [.undefined] ∧
      (Operator.mergeMaximum.eval 0.0 rates missing).get "P1" = .defined 3.0 := by
  intro rates offset offsets missing
  have hrates : KeyedSet.ofEntries "WA" .well [("P1", .defined 3.0), ("P2", .undefined)] =
      .ok rates := rfl
  have hoffsets : Reachable offsets := .assignAll _ (.ofEntries hrates)
  obtain ⟨hpaired, hscalars, -⟩ :=
    Operator.subtract.eval_broadcast 0.0 (.field "FB" (.defined 2.0)) rfl rfl
  obtain ⟨-, -, hmissing⟩ :=
    Operator.mergeMaximum.eval_broadcast 0.0
      (.scalar "FC" (.defined Binary64.notANumber)) rfl rfl
  have h := hpaired rates offsets (.ofEntries hrates) hoffsets rfl
    (repeats_assignAll (by decide +kernel) rates)
  refine ⟨h.1, h.2.1, (hscalars missing rfl).2.2.2, ?_⟩
  rw [(hmissing rfl rates (.ofEntries hrates) rfl "P1").1]
  rfl

end Operator

end Quantities
