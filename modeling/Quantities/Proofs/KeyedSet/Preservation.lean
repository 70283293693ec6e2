import Quantities.Proofs.KeyedSet.WellFormed

/-!
# Operations keep sets well-formed

One lemma for each operation on sets.  An operation that touches values only is covered by
`WellFormed.of_values`; the others append keys by `push`.  What a computed set holds under a key is read
off its values.
-/

namespace Quantities

namespace KeyedSet

variable {s t : KeyedSet}

/-! ## Values -/

/-- Other checked values under the same keys and positions. -/
theorem WellFormed.of_values (h : s.WellFormed) (hkeys : t.keys = s.keys)
    (hindex : t.index = s.index) (hlength : t.values.length = s.values.length)
    (hnormal : ∀ value ∈ t.values, value.IsNormal) : t.WellFormed where
  keys_nodup := by rw [hkeys]; exact h.keys_nodup
  length_values := by rw [hlength, hkeys]; exact h.length_values
  index_eq := by rw [hindex, hkeys]; exact h.index_eq
  isNormal := hnormal

theorem WellFormed.setAt (h : s.WellFormed) (position : Nat) (value : Value) :
    (s.setAt position value).WellFormed := by
  refine h.of_values rfl rfl (by simp) ?_
  intro stored hstored
  rw [values_setAt] at hstored
  rcases List.mem_or_eq_of_mem_set hstored with hold | rfl
  · exact h.isNormal stored hold
  · exact value.isNormal_normalized

theorem WellFormed.assign (h : s.WellFormed) {key : String} {value : Value}
    (ht : s.assign key value = .ok t) : t.WellFormed := by
  unfold KeyedSet.assign at ht
  split at ht
  · cases ht
    exact h.setAt _ value
  · cases ht

theorem WellFormed.assignAt? (h : s.WellFormed) {position : Nat} {value : Value}
    (ht : s.assignAt? position value = some t) : t.WellFormed := by
  unfold KeyedSet.assignAt? at ht
  split at ht
  · cases ht
    exact h.setAt position value
  · cases ht

theorem WellFormed.assignFrom (h : s.WellFormed) (position : Nat) (values : List Value) :
    (s.assignFrom position values).WellFormed := by
  induction values generalizing s position with
  | nil => exact h
  | cons value rest ih => exact ih (h.setAt position value) (position + 1)

/-- Whatever the step does and carries along, the values that it leaves are checked. -/
theorem isNormal_threadValues {σ : Type} (step : σ → Value → Value × σ) (state : σ)
    (values : List Value) : ∀ value ∈ (threadValues step state values).1, value.IsNormal := by
  induction values generalizing state with
  | nil => simp [threadValues]
  | cons value rest ih =>
      simp only [threadValues, List.mem_cons]
      rintro stored (rfl | hstored)
      · exact Value.isNormal_normalized _
      · exact ih _ stored hstored

theorem WellFormed.mapThreaded (h : s.WellFormed) {σ : Type} (step : σ → Value → Value × σ)
    (state : σ) : (s.mapThreaded step state).1.WellFormed := by
  refine h.of_values rfl rfl ?_ ?_
  · rw [values_mapThreaded, length_threadValues]
  · rw [values_mapThreaded]
    exact isNormal_threadValues step state s.values

theorem WellFormed.mapValues (h : s.WellFormed) (f : Value → Value) :
    (s.mapValues f).WellFormed := by
  rw [← mapThreaded_of_stateless]
  exact h.mapThreaded _ ()

theorem WellFormed.renamed (h : s.WellFormed) (name : String) : (s.renamed name).WellFormed :=
  h.of_values rfl rfl rfl h.isNormal

/-! ## Keys -/

theorem wellFormed_bare (name : String) (kind : Kind) : (bare name kind).WellFormed where
  keys_nodup := by simp
  length_values := rfl
  index_eq := rfl
  isNormal := by simp [bare, values]

theorem WellFormed.push (h : s.WellFormed) {key : String} (hkey : key ∉ s.keys) (value : Value) :
    (s.push key value).WellFormed where
  keys_nodup := by
    rw [keys_push, List.nodup_append]
    refine ⟨h.keys_nodup, by simp, ?_⟩
    intro held hheld added hadded
    rw [List.mem_singleton.mp hadded]
    exact fun heq => hkey (heq ▸ hheld)
  length_values := by
    have hlength := h.length_values
    rw [values_push, keys_push, List.length_append, List.length_append, hlength]
    rfl
  index_eq := by
    rw [keys_push, indexOf_append_singleton, ← h.index_eq, length_keys]
    rfl
  isNormal := by
    intro stored hstored
    rw [values_push, List.mem_append, List.mem_singleton] at hstored
    rcases hstored with hold | rfl
    · exact h.isNormal stored hold
    · exact value.isNormal_normalized

/-- Entries are appended while their keys are new, so a set that is built has distinct keys. -/
theorem WellFormed.pushAll (h : s.WellFormed) {entries : List (String × Value)}
    (ht : s.pushAll entries = .ok t) : t.WellFormed := by
  induction entries generalizing s with
  | nil =>
      cases ht
      exact h
  | cons entry rest ih =>
      obtain ⟨key, value⟩ := entry
      unfold KeyedSet.pushAll at ht
      split at ht
      · cases ht
      · next hnew => exact ih (h.push (fun hmem => hnew (h.contains_iff.mpr hmem)) value) ht

/-- Entries are all appended when no key repeats. -/
theorem WellFormed.pushAll_eq_extend (h : s.WellFormed) {entries : List (String × Value)}
    (hkeys : (s.keys ++ entries.map Prod.fst).Nodup) : s.pushAll entries = .ok (s.extend entries) := by
  induction entries generalizing s with
  | nil => rfl
  | cons entry rest ih =>
      obtain ⟨key, value⟩ := entry
      have hnew : key ∉ s.keys := by
        intro hmem
        exact (List.nodup_append.mp hkeys).2.2 key hmem key (by simp) rfl
      have hpush := h.push hnew value
      have hcontains : s.contains key = false := by
        rw [← Bool.not_eq_true, h.contains_iff]
        exact hnew
      unfold KeyedSet.pushAll
      rw [if_neg (by simp [hcontains])]
      refine ih hpush ?_
      rw [keys_push, List.append_assoc]
      exact hkeys

/-- Appending distinct new keys one after the other. -/
theorem WellFormed.extend (h : s.WellFormed) {entries : List (String × Value)}
    (hkeys : (s.keys ++ entries.map Prod.fst).Nodup) : (s.extend entries).WellFormed :=
  h.pushAll (h.pushAll_eq_extend hkeys)

theorem wellFormed_ofEntries {name : String} {kind : Kind} {entries : List (String × Value)}
    (ht : ofEntries name kind entries = .ok t) : t.WellFormed := by
  unfold ofEntries at ht
  split at ht
  · cases ht
  · next s hs =>
    split at ht
    · cases ht
    · cases ht
      exact (wellFormed_bare name kind).pushAll hs

theorem wellFormed_scalar (name : String) (value : Value) : (scalar name value).WellFormed :=
  (wellFormed_bare name .scalar).push (by simp) value

theorem wellFormed_field (name : String) (value : Value) : (field name value).WellFormed :=
  (wellFormed_bare name .field).push (by simp) value

theorem WellFormed.mem_missingKeys (h : s.WellFormed) {key : String} :
    key ∈ s.missingKeys t ↔ key ∈ t.keys ∧ key ∉ s.keys := by
  rw [missingKeys, List.mem_filter, ← h.contains_iff]
  simp

theorem WellFormed.missingKeys_eq_nil_iff (h : s.WellFormed) :
    s.missingKeys t = [] ↔ t.keys ⊆ s.keys := by
  rw [List.eq_nil_iff_forall_not_mem]
  simp only [h.mem_missingKeys, not_and, not_not]
  rfl

theorem WellFormed.keyUnion (hs : s.WellFormed) (ht : t.WellFormed) :
    (s.keyUnion t).WellFormed := by
  have hkeys : (s.keys ++ s.missingKeys t).Nodup := by
    refine List.nodup_append.mpr ⟨hs.keys_nodup, ht.keys_nodup.filter _, ?_⟩
    rintro key hheld _ hmissing rfl
    exact (hs.mem_missingKeys.mp hmissing).2 hheld
  rw [keyUnion_eq_extend]
  refine (hs.mapValues _).extend ?_
  simpa [Function.comp_def] using hkeys

/-! ## Reading computed sets -/

theorem WellFormed.get_of_values (h : s.WellFormed) {f : String → Value}
    (hvalues : s.values = s.keys.map f) {key : String} (hkey : key ∈ s.keys) :
    s.get key = f key := by
  obtain ⟨i, hi⟩ := List.mem_iff_getElem?.mp hkey
  refine h.get_eq_of_getElem? hi ?_
  rw [hvalues, List.getElem?_map, hi]
  rfl

/-- What holds of the values under the keys of both sets holds of absent keys as well. -/
theorem WellFormed.get_of_keys_eq (hs : s.WellFormed) (ht : t.WellFormed) (hkeys : s.keys = t.keys)
    (f : Value → Value) (hf : f .undefined = .undefined)
    (hget : ∀ key ∈ t.keys, s.get key = f (t.get key)) (key : String) :
    s.get key = f (t.get key) := by
  by_cases hkey : key ∈ t.keys
  · exact hget key hkey
  · have habsent : key ∉ s.keys := by
      rw [hkeys]
      exact hkey
    rw [hs.get_of_notMem habsent, ht.get_of_notMem hkey, hf]

theorem WellFormed.values_mapValues_keys (h : s.WellFormed) (f : Value → Value) :
    (s.mapValues f).values = s.keys.map fun key => (f (s.get key)).normalized := by
  rw [values_mapValues, ← h.map_get_keys, List.map_map]
  rfl

theorem WellFormed.get_mapValues (h : s.WellFormed) (f : Value → Value) {key : String}
    (hkey : key ∈ s.keys) : (s.mapValues f).get key = (f (s.get key)).normalized :=
  (h.mapValues f).get_of_values (h.values_mapValues_keys f) hkey

section Normal

variable {f : Value → Value} (hf : ∀ value, (f value).IsNormal)
include hf

/-- Results that are checked already are not changed by the check. -/
theorem values_mapValues_of_isNormal (s : KeyedSet) : (s.mapValues f).values = s.values.map f := by
  rw [values_mapValues]
  exact List.map_congr_left fun value _ => Value.normalized_of_isNormal (hf value)

theorem WellFormed.get_mapValues_of_isNormal (h : s.WellFormed) {key : String} (hkey : key ∈ s.keys) :
    (s.mapValues f).get key = f (s.get key) := by
  rw [h.get_mapValues f hkey, Value.normalized_of_isNormal (hf _)]

end Normal

end KeyedSet

end Quantities
