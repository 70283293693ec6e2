import Quantities.Proofs.KeyedSet.Preservation

/-!
# Sets built from entries

Entries with distinct keys are appended one after the other, and the set that they build shows them
again in the same order, each value checked.
-/

namespace Quantities

namespace KeyedSet

variable {name : String} {kind : Kind} {entries : List (String × Value)}

theorem pushAll_bare (hkeys : (entries.map Prod.fst).Nodup) :
    (bare name kind).pushAll entries = .ok ((bare name kind).extend entries) :=
  (wellFormed_bare name kind).pushAll_eq_extend (by simpa using hkeys)

theorem size_extend_bare (name : String) (kind : Kind) (entries : List (String × Value)) :
    ((bare name kind).extend entries).size = entries.length := by
  rw [← length_keys, keys_extend, keys_bare, List.nil_append, List.length_map]

theorem entries_extend_bare (name : String) (kind : Kind) (entries : List (String × Value)) :
    ((bare name kind).extend entries).entries.toList =
      entries.map fun entry => (entry.1, entry.2.normalized) := by
  rw [toList_entries, keys_extend, values_extend, keys_bare, List.nil_append, ← List.zip_map']
  rfl

/-- Entries with distinct keys build a set, if their number suits its kind. -/
theorem ofEntries_eq_ok (hkeys : (entries.map Prod.fst).Nodup)
    (hshape : kind.isScalar = true → entries.length = 1) :
    ofEntries name kind entries = .ok ((bare name kind).extend entries) := by
  unfold ofEntries
  rw [pushAll_bare hkeys]
  simp only [size_extend_bare]
  by_cases hscalar : kind.isScalar = true
  · simp [hshape hscalar]
  · simp [hscalar]

end KeyedSet

end Quantities
