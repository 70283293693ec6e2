import Quantities.Proofs.KeyedSet.Construction
import Quantities.Proofs.KeyedSet.ScalarShape
import Quantities.Proofs.Stored.Value

/-!
# Stored sets are read back

A set is stored with its name, its kind and its entries, and built again from them.  Since its keys are
distinct and its values checked, the set that is built has the same name, kind, keys, values and
positions.
-/

namespace Quantities

namespace KeyedSet

variable {s : KeyedSet}

theorem areNormal_map {α : Type} {f : α → JsonTree} (h : ∀ a, (f a).IsNormal) (items : List α) :
    JsonTree.AreNormal (items.map f) := by
  induction items with
  | nil => trivial
  | cons item rest ih => exact ⟨h item, ih⟩

theorem isNormal_entryTree (entry : String × Value) : (entryTree entry).IsNormal :=
  ⟨trivial, entry.2.isNormal_toTree, trivial⟩

theorem isNormal_toTree (s : KeyedSet) : s.toTree.IsNormal :=
  ⟨trivial, trivial, areNormal_map isNormal_entryTree _, trivial⟩

/-- An entry is decoded from a tree as it was stored, its value checked. -/
theorem entryOfTree?_entryTree (entry : String × Value) :
    entryOfTree? (entryTree entry) = some (entry.1, entry.2.normalized) := by
  rw [entryTree, entryOfTree?, Value.ofTree?_toTree]
  rfl

theorem mapM_entryOfTree? (entries : List (String × Value)) :
    (entries.map entryTree).mapM entryOfTree? =
      some (entries.map fun entry => (entry.1, entry.2.normalized)) := by
  induction entries with
  | nil => rfl
  | cons entry rest ih =>
      rw [List.map_cons, List.mapM_cons, entryOfTree?_entryTree, ih]
      rfl

def fieldTrees (s : KeyedSet) : List (String × JsonTree) := [
  ("name", .string (some s.name)),
  ("var_type", s.kind.toTree),
  ("entries", .array (s.entries.toList.map entryTree))]

theorem fieldsOf?_toTree (s : KeyedSet) :
    Stored.fieldsOf? storedFields s.toTree = some s.fieldTrees := by
  have hrecord : s.toTree = Stored.recordOf s.fieldTrees := rfl
  rw [hrecord]
  exact Stored.fieldsOf?_recordOf (by simp [fieldTrees, storedFields]) (by simp [fieldTrees])

theorem partsOfTree?_toTree (s : KeyedSet) : partsOfTree? s.toTree =
    some (s.name, s.kind, s.entries.toList.map fun entry => (entry.1, entry.2.normalized)) := by
  have hname : Stored.required JsonTree.text? s.fieldTrees "name" = some s.name := rfl
  have hkind : Stored.required Kind.ofTree? s.fieldTrees "var_type" = some s.kind :=
    Kind.ofTree?_toTree s.kind
  have hitems : Stored.required JsonTree.items? s.fieldTrees "entries" =
      some (s.entries.toList.map entryTree) := rfl
  rw [partsOfTree?, fieldsOf?_toTree]
  simp only [Option.bind_eq_bind, Option.bind_some, hname, hkind, hitems, mapM_entryOfTree?]
  rfl

/-! ## Building the set again -/

def rebuilt (s : KeyedSet) : KeyedSet :=
  (bare s.name s.kind).extend s.entries.toList

theorem Coherent.map_normalized (h : s.Coherent) :
    s.entries.toList.map (fun entry => (entry.1, entry.2.normalized)) = s.entries.toList := by
  rw [toList_entries]
  conv_rhs => rw [← List.map_id (s.keys.zip s.values)]
  refine List.map_congr_left fun entry hentry => ?_
  have hvalue : entry.2 ∈ s.values := (List.of_mem_zip hentry).2
  have hnormal : entry.2.IsNormal := by
    cases hcase : entry.2 with
    | defined x => exact h.isFinite x (hcase ▸ hvalue)
    | undefined => trivial
  rw [Value.normalized_of_isNormal hnormal]
  rfl

theorem Coherent.map_fst_entries (h : s.Coherent) : s.entries.toList.map Prod.fst = s.keys := by
  rw [toList_entries, List.map_fst_zip (le_of_eq h.length_keys_eq)]

theorem Coherent.keys_rebuilt (h : s.Coherent) : s.rebuilt.keys = s.keys := by
  rw [rebuilt, keys_extend, keys_bare, List.nil_append, h.map_fst_entries]

theorem Coherent.values_rebuilt (h : s.Coherent) : s.rebuilt.values = s.values := by
  have hvalues : s.entries.toList.map (fun entry => entry.2.normalized) =
      (s.entries.toList.map fun entry => (entry.1, entry.2.normalized)).map Prod.snd := by
    rw [List.map_map]
    rfl
  have hsnd : s.entries.toList.map Prod.snd = s.values := by
    rw [toList_entries, List.map_snd_zip (le_of_eq h.length_keys_eq.symm)]
  rw [rebuilt, values_extend, hvalues, h.map_normalized, hsnd]
  rfl

/-- The entries of a set build it again. -/
theorem Coherent.ofEntries_entries (h : s.Coherent) (hshape : s.ScalarShaped) :
    ofEntries s.name s.kind s.entries.toList = .ok s.rebuilt := by
  have hlength : s.entries.toList.length = s.size := by
    rw [← length_keys, ← h.map_fst_entries, List.length_map]
  have hkeys : (s.entries.toList.map Prod.fst).Nodup := by
    rw [h.map_fst_entries]
    exact h.keys_nodup
  exact ofEntries_eq_ok hkeys fun hscalar => hlength.trans (hshape hscalar)

/-- Decoding the text of a set builds it again from its entries. -/
theorem Coherent.ofText_toText (h : s.Coherent) (hshape : s.ScalarShaped) :
    KeyedSet.ofText s.toText = .ok s.rebuilt := by
  rw [KeyedSet.ofText, toText, Stored.readWith_text (isNormal_toTree s), ofTree, partsOfTree?_toTree,
    h.map_normalized]
  simp only [h.ofEntries_entries hshape]

theorem Coherent.position?_rebuilt (h : s.Coherent) (hshape : s.ScalarShaped) (key : String) :
    s.rebuilt.position? key = s.position? key := by
  have hbuilt := wellFormed_ofEntries (h.ofEntries_entries hshape)
  ext i
  rw [hbuilt.position?_eq_some_iff, h.keys_rebuilt, h.position?_iff]

/-- A reachable set comes back as the same set, down to the layout of its index. -/
theorem Reachable.ofText_toText (h : Reachable s) (hshape : s.ScalarShaped) :
    KeyedSet.ofText s.toText = .ok s := by
  have hcoherent := h.wellFormed.coherent
  have hread := hcoherent.ofText_toText hshape
  have hsame : s.rebuilt = s :=
    (wellFormed_ofText hread).ext h.wellFormed (name_extend _ _) (kind_extend _ _)
      hcoherent.keys_rebuilt hcoherent.values_rebuilt
  rw [hread, hsame]

/--
Stored sets and stored values come back: a set with everything that it shows, and a value as it is
checked.
-/
theorem stored_round_trip (h : s.Coherent) (hshape : s.ScalarShaped) (value : Value) :
    (∃ t, KeyedSet.ofText s.toText = .ok t ∧ t.name = s.name ∧ t.kind = s.kind ∧ t.keys = s.keys ∧
      t.values = s.values ∧ ∀ key, t.position? key = s.position? key) ∧
    Value.ofText value.toText = .ok value.normalized := by
  refine ⟨⟨s.rebuilt, h.ofText_toText hshape, name_extend _ _, kind_extend _ _, h.keys_rebuilt,
    h.values_rebuilt, h.position?_rebuilt hshape⟩, value.ofText_toText⟩

theorem stored_round_trip_of_escapes :
    let s := ((bare "W\"\\\n\x01" .well).push "" (.defined (-0.0))).push "😀" .undefined
    s.Coherent ∧ s.ScalarShaped ∧
    (∃ t, KeyedSet.ofText s.toText = .ok t ∧ t.name = s.name ∧ t.kind = s.kind ∧ t.keys = s.keys ∧
      t.values = s.values ∧ ∀ key, t.position? key = s.position? key) ∧
    Value.ofText (Value.defined Binary64.notANumber).toText = .ok .undefined := by
  intro s
  have hs : s.Coherent :=
    (((wellFormed_bare _ _).push (by simp) _).push (by simp) _).coherent
  have hshape : s.ScalarShaped := fun hscalar => by cases hscalar
  exact ⟨hs, hshape, stored_round_trip hs hshape (.defined Binary64.notANumber)⟩

end KeyedSet

end Quantities
