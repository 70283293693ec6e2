import Mathlib.Data.List.Induction
import Quantities.KeyedSet.Threaded
import Quantities.KeyedSet.Union

/-!
# Well-formed sets

The facts about keys, values and positions that every operation on sets relies on and restores.  The
index of a well-formed set is determined by its keys, so two well-formed sets with the same name, kind,
keys and values are the same set.
-/

namespace Quantities

namespace KeyedSet

/-! ## The index of a list of keys -/

def indexOf (keys : List String) : Std.TreeMap String Nat :=
  keys.zipIdx.foldl (fun index entry => index.insert entry.1 entry.2) ∅

theorem indexOf_append_singleton (keys : List String) (key : String) :
    indexOf (keys ++ [key]) = (indexOf keys).insert key keys.length := by
  simp [indexOf, List.zipIdx_append]

/-- Among distinct keys the index finds each one where it stands, and nothing else. -/
theorem getElem?_indexOf {keys : List String} (hkeys : keys.Nodup) (key : String) (i : Nat) :
    (indexOf keys)[key]? = some i ↔ keys[i]? = some key := by
  induction keys using List.reverseRecOn with
  | nil => simp [indexOf]
  | append_singleton keys last ih =>
      obtain ⟨hfront, -, hlast⟩ := List.nodup_append.mp hkeys
      have hnew : last ∉ keys := fun hmem => hlast last hmem last (by simp) rfl
      have hlookup := ih hfront
      rw [indexOf_append_singleton, Std.TreeMap.getElem?_insert, List.getElem?_append,
        List.getElem?_singleton]
      simp only [Std.compare_eq_iff_eq]
      by_cases heq : last = key
      · -- The last key stands at the end only.
        subst heq
        have habsent : keys[i]? ≠ some last := fun h => hnew (List.mem_of_getElem? h)
        by_cases hi : i < keys.length
        · simp only [if_true, if_pos hi, habsent, iff_false, Option.some.injEq]
          omega
        · simp only [if_true, if_neg hi, Option.some.injEq]
          split
          · simp only [iff_true]; omega
          · simp only [reduceCtorEq, iff_false]; omega
      · by_cases hi : i < keys.length
        · simpa only [if_neg heq, if_pos hi] using hlookup
        · have hbeyond : keys[i]? = none := List.getElem?_eq_none (by omega)
          rw [hbeyond] at hlookup
          simp only [if_neg heq, hlookup, if_neg hi, reduceCtorEq, false_iff]
          split
          · simpa using heq
          · simp

/-! ## The invariant -/

/--
The representation invariant: distinct keys, one value for each of them, the index that the keys
determine, and values that are undefined or finite.
-/
structure WellFormed (s : KeyedSet) : Prop where
  keys_nodup : s.keys.Nodup
  length_values : s.values.length = s.keys.length
  index_eq : s.index = indexOf s.keys
  isNormal : ∀ value ∈ s.values, value.IsNormal

/-- A well-formed set is determined by what its iteration shows. -/
theorem WellFormed.ext {s t : KeyedSet} (hs : s.WellFormed) (ht : t.WellFormed)
    (hname : s.name = t.name) (hkind : s.kind = t.kind) (hkeys : s.keys = t.keys)
    (hvalues : s.values = t.values) : s = t := by
  have hindex : s.index = t.index := by rw [hs.index_eq, ht.index_eq, hkeys]
  obtain ⟨name, kind, keyArray, valueArray, index⟩ := s
  obtain ⟨name', kind', keyArray', valueArray', index'⟩ := t
  simp only [keys, Array.toList_inj] at hkeys
  simp only [values, Array.toList_inj] at hvalues
  simp_all

section Lookups

variable {s : KeyedSet}

theorem WellFormed.position?_eq_some_iff (h : s.WellFormed) {key : String} {i : Nat} :
    s.position? key = some i ↔ s.keys[i]? = some key := by
  rw [position?, h.index_eq]
  exact getElem?_indexOf h.keys_nodup key i

theorem WellFormed.contains_iff (h : s.WellFormed) {key : String} :
    s.contains key = true ↔ key ∈ s.keys := by
  rw [contains_eq_isSome_position?, Option.isSome_iff_exists, List.mem_iff_getElem?]
  simp only [h.position?_eq_some_iff]

/-- A position that the index gives is a position of a value. -/
theorem WellFormed.lt_of_position? (h : s.WellFormed) {key : String} {i : Nat}
    (hi : s.position? key = some i) : i < s.values.length := by
  rw [h.length_values]
  exact (List.getElem?_eq_some_iff.mp (h.position?_eq_some_iff.mp hi)).1

theorem WellFormed.at?_of_position? (h : s.WellFormed) {key : String} {i : Nat}
    (hi : s.position? key = some i) : s.at? i = some (s.get key) := by
  have hlt := h.lt_of_position? hi
  simp [get, hi, at?_eq_getElem?_values, hlt]

theorem WellFormed.get_eq_of_getElem? (h : s.WellFormed) {key : String} {value : Value} {i : Nat}
    (hkey : s.keys[i]? = some key) (hvalue : s.values[i]? = some value) : s.get key = value := by
  have hi := h.position?_eq_some_iff.mpr hkey
  have hat := h.at?_of_position? hi
  rw [at?_eq_getElem?_values, hvalue] at hat
  exact (Option.some.inj hat).symm

theorem get_of_not_contains {key : String} (h : s.contains key = false) :
    s.get key = .undefined := by
  rw [contains_eq_isSome_position?, Option.isSome_eq_false_iff, Option.isNone_iff_eq_none] at h
  simp [get, h]

theorem WellFormed.get_of_notMem (h : s.WellFormed) {key : String} (hkey : key ∉ s.keys) :
    s.get key = .undefined := by
  apply get_of_not_contains
  rw [← Bool.not_eq_true, h.contains_iff]
  exact hkey

/-- Reading every key in order gives the values. -/
theorem WellFormed.map_get_keys (h : s.WellFormed) : s.keys.map s.get = s.values := by
  apply List.ext_getElem
  · simp [h.length_values]
  · intro i hi hvalue
    rw [List.getElem_map]
    exact h.get_eq_of_getElem? (List.getElem?_eq_getElem (by simpa using hi))
      (List.getElem?_eq_getElem hvalue)

theorem WellFormed.isNormal_get (h : s.WellFormed) (key : String) : (s.get key).IsNormal := by
  by_cases hkey : key ∈ s.keys
  · have hmem : s.get key ∈ s.values := by
      rw [← h.map_get_keys]
      exact List.mem_map_of_mem hkey
    exact h.isNormal _ hmem
  · rw [h.get_of_notMem hkey]
    trivial

theorem scalarValue_eq_headD (s : KeyedSet) : s.scalarValue = s.values.headD .undefined := by
  cases hvalues : s.values <;> simp [scalarValue, at?_eq_getElem?_values, hvalues]

end Lookups

end KeyedSet

end Quantities
