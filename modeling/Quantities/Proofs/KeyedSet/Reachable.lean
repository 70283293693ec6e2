import Quantities.Draw
import Quantities.Operator
import Quantities.Proofs.KeyedSet.Preservation
import Quantities.Settings
import Quantities.Stored.KeyedSet
import Quantities.Transform

/-!
# Reachable sets

The sets that a program can get hold of are the results of finitely many operations, each on sets that
were reached before.  All of them are well-formed, so lookups by key, by position and in order agree, and
no operation reads or writes beyond the end.
-/

namespace Quantities

namespace KeyedSet

/--
The results of finitely many operations.  Numbers are passed in unchecked, so a supplied value may wrap
NaN or an infinity, and a function over the values of a set may carry a state of any type.
-/
inductive Reachable : KeyedSet → Prop where
  | ofEntries {name : String} {kind : Kind} {entries : List (String × Value)} {s : KeyedSet}
      (h : KeyedSet.ofEntries name kind entries = .ok s) : Reachable s
  | ofKeys {name : String} {kind : Kind} {keys : List String} {s : KeyedSet}
      (h : KeyedSet.ofKeys name kind keys = .ok s) : Reachable s
  | wells {name : String} {keys : List String} {value : Value} {s : KeyedSet}
      (h : KeyedSet.wells name keys value = .ok s) : Reachable s
  | groups {name : String} {keys : List String} {value : Value} {s : KeyedSet}
      (h : KeyedSet.groups name keys value = .ok s) : Reachable s
  | scalar (name : String) (value : Value) : Reachable (KeyedSet.scalar name value)
  | empty (name : String) : Reachable (KeyedSet.empty name)
  | field (name : String) (value : Value) : Reachable (KeyedSet.field name value)
  | ofText {text : String} {s : KeyedSet} (h : KeyedSet.ofText text = .ok s) : Reachable s
  | assign {s t : KeyedSet} {key : String} {value : Value} (hs : Reachable s)
      (h : s.assign key value = .ok t) : Reachable t
  | assignAt {s t : KeyedSet} {position : Nat} {value : Value} (hs : Reachable s)
      (h : s.assignAt? position value = some t) : Reachable t
  | assignAll {s : KeyedSet} (value : Value) (hs : Reachable s) : Reachable (s.assignAll value)
  | mapThreaded {s : KeyedSet} {σ : Type} (step : σ → Value → Value × σ) (state : σ)
      (hs : Reachable s) : Reachable (s.mapThreaded step state).1
  | renamed {s : KeyedSet} (name : String) (hs : Reachable s) : Reachable (s.renamed name)
  | keyUnion {s t : KeyedSet} (hs : Reachable s) (ht : Reachable t) : Reachable (s.keyUnion t)
  | applyRange {s : KeyedSet} (settings : Settings) (hs : Reachable s) :
      Reachable (settings.applyRange s)
  | transform {s : KeyedSet} (transform : Transform) (hs : Reachable s) :
      Reachable (transform.eval s)
  | draw {s : KeyedSet} (draw : Draw) (g : Generator) (hs : Reachable s) :
      Reachable (draw.eval g s).1
  | operator {s t : KeyedSet} (operator : Operator) (epsilon : Float) (hs : Reachable s)
      (ht : Reachable t) : Reachable (operator.eval epsilon s t)

/-! ## Every operation keeps the invariant -/

/-- A set that is read from a text was built from its entries. -/
theorem exists_ofEntries_of_ofText {text : String} {s : KeyedSet} (h : ofText text = .ok s) :
    ∃ name kind entries, ofEntries name kind entries = .ok s := by
  unfold ofText Stored.readWith at h
  split at h
  · cases h
  · split at h
    · cases h
    · next hdecode =>
      split at h <;> cases h
      unfold ofTree at hdecode
      split at hdecode
      · cases hdecode
      · split at hdecode <;> cases hdecode
        next hentries => exact ⟨_, _, _, hentries⟩

theorem wellFormed_ofText {text : String} {s : KeyedSet} (h : ofText text = .ok s) :
    s.WellFormed := by
  obtain ⟨name, kind, entries, hentries⟩ := exists_ofEntries_of_ofText h
  exact wellFormed_ofEntries hentries

variable {s t : KeyedSet}

theorem WellFormed.transform (h : s.WellFormed) (transform : Transform) :
    (transform.eval s).WellFormed := by
  cases transform with
  | ascending | descending => exact h.mapThreaded _ _
  | _ => exact h.mapValues _

theorem WellFormed.combine (hs : s.WellFormed) (ht : t.WellFormed) (f : Value → Value → Value) :
    (KeyedSet.combine f s t).WellFormed := by
  unfold KeyedSet.combine
  split
  · exact (ht.mapValues _).renamed _
  · exact hs.mapValues _
  · exact (hs.keyUnion ht).assignFrom _ _

/-- The invariant holds along every run of operations. -/
theorem Reachable.wellFormed (h : Reachable s) : s.WellFormed := by
  induction h with
  | ofEntries h | ofKeys h | wells h | groups h => exact wellFormed_ofEntries h
  | scalar name value => exact wellFormed_scalar name value
  | empty name => exact wellFormed_scalar name .undefined
  | field name value => exact wellFormed_field name value
  | ofText h => exact wellFormed_ofText h
  | assign _ h ih => exact ih.assign h
  | assignAt _ h ih => exact ih.assignAt? h
  | assignAll value _ ih => exact ih.mapValues _
  | mapThreaded step state _ ih => exact ih.mapThreaded step state
  | renamed name _ ih => exact ih.renamed name
  | keyUnion _ _ ihs iht => exact ihs.keyUnion iht
  | applyRange settings _ ih => exact ih.mapValues _
  | transform transform _ ih => exact ih.transform transform
  | draw draw g _ ih => exact ih.mapThreaded _ g
  | operator operator epsilon _ _ ihs iht => exact ihs.combine iht _

/-! ## What readers and writers rely on -/

/-- Distinct keys, one checked value for each of them, and an index without stale or missing entries. -/
structure Coherent (s : KeyedSet) : Prop where
  keys_nodup : s.keys.Nodup
  length_keys_eq : s.keys.length = s.values.length
  position?_iff : ∀ key i, s.position? key = some i ↔ s.keys[i]? = some key
  isFinite : ∀ x, Value.defined x ∈ s.values → x.isFinite = true

/-- The ways to read a set agree, and the one through the index never reads beyond the end. -/
structure LookupsAgree (s : KeyedSet) : Prop where
  contains_iff : ∀ key, s.contains key = true ↔ key ∈ s.keys
  getElem?_entries : ∀ i key value,
    s.entries[i]? = some (key, value) ↔ s.position? key = some i ∧ s.at? i = some value
  at?_position : ∀ key i, s.position? key = some i → s.at? i = some (s.get key)
  get_absent : ∀ key, s.contains key = false → s.get key = .undefined

def assignFrom? (s : KeyedSet) (position : Nat) : List Value → Option KeyedSet
  | [] => some s
  | value :: rest =>
      match s.assignAt? position value with
      | some s => s.assignFrom? (position + 1) rest
      | none => none

/-- No write of an assignment by key, or of the loop that fills a union, goes beyond the end. -/
structure WritesInBounds (s : KeyedSet) : Prop where
  assign : ∀ key value t, s.assign key value = .ok t →
    ∃ i, s.position? key = some i ∧ s.assignAt? i value = some t
  combine : ∀ f t, Reachable t → s.kind.isScalar = false → t.kind.isScalar = false →
    (s.keyUnion t).assignFrom? 0 (unionValues f s t) = some (KeyedSet.combine f s t)

theorem WellFormed.coherent (h : s.WellFormed) : s.Coherent where
  keys_nodup := h.keys_nodup
  length_keys_eq := h.length_values.symm
  position?_iff _ _ := h.position?_eq_some_iff
  isFinite x hx := h.isNormal (.defined x) hx

theorem WellFormed.lookupsAgree (h : s.WellFormed) : s.LookupsAgree where
  contains_iff _ := h.contains_iff
  getElem?_entries i key value := by
    rw [← Array.getElem?_toList, toList_entries, List.getElem?_zip_eq_some,
      h.position?_eq_some_iff, at?_eq_getElem?_values]
  at?_position _ _ hi := h.at?_of_position? hi
  get_absent _ hkey := get_of_not_contains hkey

theorem assignAt?_of_lt {position : Nat} (h : position < s.values.length) (value : Value) :
    s.assignAt? position value = some (s.setAt position value) := by
  rw [assignAt?, if_pos (by simpa [values] using h)]

/-- Checked and unchecked writes are the same as long as the values fit. -/
theorem assignFrom?_of_le {position : Nat} {values : List Value}
    (h : position + values.length ≤ s.values.length) :
    s.assignFrom? position values = some (s.assignFrom position values) := by
  induction values generalizing s position with
  | nil => rfl
  | cons value rest ih =>
      rw [List.length_cons] at h
      rw [assignFrom?, assignAt?_of_lt (by omega)]
      apply ih
      rw [values_setAt, List.length_set]
      omega

theorem WellFormed.writesInBounds (h : s.WellFormed) : s.WritesInBounds where
  assign key value t ht := by
    unfold KeyedSet.assign at ht
    split at ht
    · next i hi =>
      cases ht
      exact ⟨i, hi, assignAt?_of_lt (h.lt_of_position? hi) value⟩
    · cases ht
  combine f t ht hs hkeyed := by
    have hunion := h.keyUnion ht.wellFormed
    rw [combine_of_keyed f hs hkeyed]
    apply assignFrom?_of_le
    rw [unionValues, List.length_map, hunion.length_values]
    omega

/-- Every reachable set keeps the representation invariant, whatever was supplied on the way. -/
theorem Reachable.representation (h : Reachable s) :
    s.Coherent ∧ s.LookupsAgree ∧ s.WritesInBounds :=
  ⟨h.wellFormed.coherent, h.wellFormed.lookupsAgree, h.wellFormed.writesInBounds⟩

theorem representation_of_merge :
    let first := ((bare "WA" .well).push "P1" (.defined Binary64.infinity)).push "P2" (.defined 2.0)
    let second := ((bare "WB" .well).push "P3" (.defined Binary64.notANumber)).push "P2" .undefined
    let merged := Operator.mergeAdd.eval 0.0 first second
    Reachable merged ∧ merged.Coherent ∧ merged.LookupsAgree ∧ merged.WritesInBounds := by
  intro first second merged
  have hfirst : KeyedSet.ofEntries "WA" .well
      [("P1", .defined Binary64.infinity), ("P2", .defined 2.0)] = .ok first := rfl
  have hsecond : KeyedSet.ofEntries "WB" .well
      [("P3", .defined Binary64.notANumber), ("P2", .undefined)] = .ok second := rfl
  have hmerged : Reachable merged := .operator .mergeAdd 0.0 (.ofEntries hfirst) (.ofEntries hsecond)
  exact ⟨hmerged, hmerged.representation⟩

end KeyedSet

end Quantities
