import Mathlib
import Quantities.Proofs.Json.Grammar
import Quantities.Stored.Record

/-!
# Stored records are read back

Decoding a text that spells a tree is decoding the tree.  A record is taken apart into the fields that it
knows, wherever they stand among its members, unless one of them is repeated; a list of values is the record
of the fields that they belong to.
-/

namespace Quantities

namespace Stored

/-! ## Texts -/

theorem readWith_text {α : Type} {tree : JsonTree} (h : tree.IsNormal)
    (decode : JsonTree → Except ReadError α) : readWith decode tree.text = decode tree := by
  unfold readWith JsonTree.text
  rw [String.toList_ofList, JsonReader.read_write h]
  simp only
  cases decode tree <;> rfl

theorem readWith_of_isElement {α : Type} {text : String} {tree : JsonTree}
    (h : JsonReader.IsElement text.toList tree) (decode : JsonTree → Except ReadError α) :
    readWith decode text = decode tree := by
  obtain ⟨blank, hblank, hread⟩ := h.read_eq
  have hrest : JsonReader.skipSpace blank = [] := by
    simpa [JsonReader.skipSpace] using hblank.skipSpace_append []
  unfold readWith
  rw [hread]
  simp only [hrest]
  cases decode tree <;> rfl

/-! ## Members -/

variable {fields : List String} {members found : List (String × JsonTree)} {items : List JsonTree}
  {field : String} {tree : JsonTree}

def recordOf (members : List (String × JsonTree)) : JsonTree :=
  .object (members.map fun member => (some member.1, member.2))

def known (fields : List String) (members : List (String × JsonTree)) : List (String × JsonTree) :=
  members.filter fun member => member.1 ∈ fields

/-- No field is given twice. -/
def GivenOnce (fields : List String) (members : List (String × JsonTree)) : Prop :=
  ((known fields members).map Prod.fst).Nodup

instance (fields : List String) (members : List (String × JsonTree)) :
    Decidable (GivenOnce fields members) :=
  inferInstanceAs (Decidable (List.Nodup _))

theorem known_cons (key : String) (value : JsonTree) (members : List (String × JsonTree)) :
    known fields ((key, value) :: members) =
      if key ∈ fields then (key, value) :: known fields members else known fields members := by
  simp [known, List.filter_cons]

theorem fieldsOf?_recordOf_eq (fields : List String) (members : List (String × JsonTree)) :
    fieldsOf? fields (recordOf members) =
      if GivenOnce fields members then some (known fields members) else none := by
  unfold fieldsOf? recordOf GivenOnce
  induction members with
  | nil => rfl
  | cons member rest ih =>
      obtain ⟨key, value⟩ := member
      simp only [List.map_cons, knownMembers, known_cons] at ih ⊢
      rw [ih]
      by_cases hrest : ((known fields rest).map Prod.fst).Nodup
      · by_cases hkey : key ∈ fields
        · by_cases hrepeated : key ∈ (known fields rest).map Prod.fst
          · have hany : ((known fields rest).any fun member => member.1 = key) = true := by
              simpa using hrepeated
            simp [hrest, hkey, hrepeated, hany]
          · have hany : ((known fields rest).any fun member => member.1 = key) = false := by
              rw [← Bool.not_eq_true]
              simpa using hrepeated
            simp [hrest, hkey, hrepeated, hany]
        · simp [hrest, hkey]
      · by_cases hkey : key ∈ fields
        · simp [hrest, hkey]
        · simp [hrest, hkey]

/-- Every member of a record is found when all are known and none is repeated. -/
theorem fieldsOf?_recordOf (hknown : ∀ member ∈ found, member.1 ∈ fields)
    (hnodup : (found.map Prod.fst).Nodup) : fieldsOf? fields (recordOf found) = some found := by
  have hall : known fields found = found :=
    List.filter_eq_self.mpr fun member hmember => by simpa using hknown member hmember
  have honce : GivenOnce fields found := by rwa [GivenOnce, hall]
  rw [fieldsOf?_recordOf_eq, if_pos honce, hall]

theorem map_fst_zip_sublist (fields : List String) (items : List JsonTree) :
    ((fields.zip items).map Prod.fst).Sublist fields := by
  induction fields generalizing items with
  | nil => simp
  | cons field rest ih =>
      cases items with
      | nil => simp
      | cons item items => exact (ih items).cons_cons field

/-- A list of values is the record of its first fields. -/
theorem fieldsOf?_array (hnodup : fields.Nodup) (hlength : items.length ≤ fields.length) :
    fieldsOf? fields (.array items) = fieldsOf? fields (recordOf (fields.zip items)) := by
  rw [fieldsOf?_recordOf, fieldsOf?, if_pos hlength]
  · exact fun member hmember => (List.of_mem_zip hmember).1
  · exact hnodup.sublist (map_fst_zip_sublist fields items)

/-! ## Lookup -/

theorem lookup_known (hfield : field ∈ fields) (members : List (String × JsonTree)) :
    (known fields members).lookup field = members.lookup field := by
  induction members with
  | nil => rfl
  | cons member rest ih =>
      obtain ⟨key, value⟩ := member
      unfold known at ih ⊢
      rcases eq_or_ne field key with rfl | hne
      · simp [hfield]
      · have hbeq : (field == key) = false := by simpa using hne
        by_cases hkey : key ∈ fields
        · simp only [List.filter_cons, hkey, decide_true, if_true, List.lookup_cons, hbeq, ih]
        · simp only [List.filter_cons, hkey, decide_false, Bool.false_eq_true, if_false, List.lookup_cons,
            hbeq, ih]

theorem lookup_of_mem (honce : GivenOnce fields members) (hfield : field ∈ fields)
    (hmem : (field, tree) ∈ members) : members.lookup field = some tree := by
  have hknown : (field, tree) ∈ known fields members :=
    List.mem_filter.mpr ⟨hmem, by simpa using hfield⟩
  rw [← lookup_known hfield]
  unfold GivenOnce at honce
  generalize known fields members = found at honce hknown
  obtain ⟨before, after, rfl⟩ := List.append_of_mem hknown
  rw [List.lookup_eq_some_iff]
  refine ⟨before, after, rfl, fun member hmember => ?_⟩
  rw [List.map_append, List.map_cons, List.nodup_append] at honce
  have hne := honce.2.2 member.1 (List.mem_map_of_mem hmember) field List.mem_cons_self
  simpa using hne.symm

end Stored

end Quantities
