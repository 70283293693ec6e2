import Quantities.Proofs.KeyedSet.Reachable

/-!
# Runs of writes

Values are written under a key, at a position or everywhere.  The three ways lead to the same slots, so
after a run of writes each key holds what was last written to it.  A write that finds no slot is refused
and leaves no trace.
-/

namespace Quantities

namespace KeyedSet

variable {s t : KeyedSet} {key : String}

inductive Write where
  | assign (key : String) (value : Value)
  | assignAt (position : Nat) (value : Value)
  | assignAll (value : Value)

inductive Refusal where
  | error (e : SetupError)
  | beyondEnd

def attempt (s : KeyedSet) : Write → Except Refusal KeyedSet
  | .assign key value =>
      match s.assign key value with
      | .ok t => .ok t
      | .error e => .error (.error e)
  | .assignAt position value =>
      match s.assignAt? position value with
      | some t => .ok t
      | none => .error .beyondEnd
  | .assignAll value => .ok (s.assignAll value)

/-- The set after a write; a refused one gives no other set. -/
def write (s : KeyedSet) (w : Write) : KeyedSet :=
  match s.attempt w with
  | .ok t => t
  | .error _ => s

def writeAll (s : KeyedSet) : List Write → KeyedSet
  | [] => s
  | w :: rest => (s.write w).writeAll rest

/-- The writes that are carried out when all are made from first to last. -/
def carriedOut (s : KeyedSet) : List Write → List Write
  | [] => []
  | w :: rest =>
      match s.attempt w with
      | .ok t => w :: t.carriedOut rest
      | .error _ => s.carriedOut rest

/-- The value that a write means for the entry under a key, unchecked. -/
def meantFor (s : KeyedSet) (key : String) : Write → Option Value
  | .assign named value => if named = key then some value else none
  | .assignAt position value => if s.position? key = some position then some value else none
  | .assignAll value => some value

theorem writeAll_append (s : KeyedSet) (writes more : List Write) :
    s.writeAll (writes ++ more) = (s.writeAll writes).writeAll more := by
  induction writes generalizing s with
  | nil => rfl
  | cons w rest ih => exact ih (s.write w)

/-! ## One write -/

theorem attempt_assign_of_some {value : Value} {i : Nat} (h : s.position? key = some i) :
    s.attempt (.assign key value) = .ok (s.setAt i value) := by
  rw [attempt, assign, h]

theorem attempt_assign_of_none {value : Value} (h : s.position? key = none) :
    s.attempt (.assign key value) = .error (.error (.unknownKey s.name key)) := by
  rw [attempt, assign, h]

theorem WellFormed.size_valueArray (h : s.WellFormed) : s.valueArray.size = s.size := by
  rw [← length_keys, ← h.length_values, values, Array.length_toList]

theorem WellFormed.attempt_assignAt_of_lt (h : s.WellFormed) {value : Value} {i : Nat}
    (hi : i < s.size) : s.attempt (.assignAt i value) = .ok (s.setAt i value) := by
  rw [attempt, KeyedSet.assignAt?, h.size_valueArray, if_pos hi]

theorem WellFormed.attempt_assignAt_of_le (h : s.WellFormed) {value : Value} {i : Nat}
    (hi : s.size ≤ i) : s.attempt (.assignAt i value) = .error .beyondEnd := by
  rw [attempt, KeyedSet.assignAt?, h.size_valueArray, if_neg (Nat.not_lt.mpr hi)]

theorem write_of_attempt_ok {w : Write} (h : s.attempt w = .ok t) : s.write w = t := by
  rw [write, h]

theorem write_of_attempt_error {w : Write} {refusal : Refusal} (h : s.attempt w = .error refusal) :
    s.write w = s := by
  rw [write, h]

theorem WellFormed.position?_eq_none_iff (h : s.WellFormed) :
    s.position? key = none ↔ key ∉ s.keys := by
  rw [← h.contains_iff, contains_eq_isSome_position?]
  simp

/-- No two keys share a position. -/
theorem WellFormed.position?_eq_position?_iff (h : s.WellFormed) {named : String} {i : Nat}
    (hi : s.position? named = some i) : s.position? key = some i ↔ named = key := by
  rw [h.position?_eq_some_iff] at hi ⊢
  rw [hi, Option.some.injEq]

theorem WellFormed.attempt_assign_eq_error_iff (h : s.WellFormed) {value : Value}
    {refusal : Refusal} : s.attempt (.assign key value) = .error refusal ↔
      key ∉ s.keys ∧ refusal = .error (.unknownKey s.name key) := by
  rw [← h.position?_eq_none_iff]
  cases hposition : s.position? key with
  | none => simp [attempt_assign_of_none hposition, eq_comm]
  | some i => simp [attempt_assign_of_some hposition]

theorem WellFormed.attempt_assignAt_eq_error_iff (h : s.WellFormed) {i : Nat} {value : Value}
    {refusal : Refusal} : s.attempt (.assignAt i value) = .error refusal ↔
      s.size ≤ i ∧ refusal = .beyondEnd := by
  by_cases hi : i < s.size
  · simp [h.attempt_assignAt_of_lt hi, Nat.not_le.mpr hi]
  · have hbeyond : s.size ≤ i := Nat.not_lt.mp hi
    simp [h.attempt_assignAt_of_le hbeyond, hbeyond, eq_comm]

/-- A write fills one slot or all of them, or it is refused; then it is meant for no entry. -/
theorem WellFormed.write_cases (h : s.WellFormed) (w : Write) :
    (∃ i value, s.attempt w = .ok (s.setAt i value) ∧
      ∀ key, s.meantFor key w = if s.position? key = some i then some value else none) ∨
    (∃ value, s.attempt w = .ok (s.assignAll value) ∧ ∀ key, s.meantFor key w = some value) ∨
    (∃ refusal, s.attempt w = .error refusal ∧ ∀ key ∈ s.keys, s.meantFor key w = none) := by
  cases w with
  | assign named value =>
      cases hposition : s.position? named with
      | some i =>
          refine .inl ⟨i, value, attempt_assign_of_some hposition, fun key => ?_⟩
          simp only [meantFor, h.position?_eq_position?_iff hposition]
      | none =>
          have hnew : named ∉ s.keys := h.position?_eq_none_iff.mp hposition
          refine .inr (.inr ⟨_, attempt_assign_of_none hposition, fun key hkey => if_neg ?_⟩)
          rintro rfl
          exact hnew hkey
  | assignAt i value =>
      by_cases hi : i < s.size
      · exact .inl ⟨i, value, h.attempt_assignAt_of_lt hi, fun key => rfl⟩
      · have hbeyond : s.size ≤ i := Nat.not_lt.mp hi
        refine .inr (.inr ⟨_, h.attempt_assignAt_of_le hbeyond, fun key _ => if_neg fun hkey => hi ?_⟩)
        have hlt := h.lt_of_position? hkey
        rwa [h.length_values, length_keys] at hlt
  | assignAll value => exact .inr (.inl ⟨value, rfl, fun key => rfl⟩)

/-- A write touches values only. -/
theorem WellFormed.exists_write_eq (h : s.WellFormed) (w : Write) :
    ∃ values, s.write w = { s with valueArray := values } := by
  obtain ⟨i, value, hw, -⟩ | ⟨value, hw, -⟩ | ⟨refusal, hw, -⟩ := h.write_cases w
  · exact ⟨_, write_of_attempt_ok hw⟩
  · exact ⟨_, write_of_attempt_ok hw⟩
  · exact ⟨s.valueArray, write_of_attempt_error hw⟩

theorem WellFormed.write (h : s.WellFormed) (w : Write) : (s.write w).WellFormed := by
  obtain ⟨i, value, hw, -⟩ | ⟨value, hw, -⟩ | ⟨refusal, hw, -⟩ := h.write_cases w
  · rw [write_of_attempt_ok hw]
    exact h.setAt i value
  · rw [write_of_attempt_ok hw]
    exact h.mapValues _
  · rw [write_of_attempt_error hw]
    exact h

theorem WellFormed.get_setAt (h : s.WellFormed) {i : Nat} {value : Value} (hkey : key ∈ s.keys) :
    (s.setAt i value).get key =
      if s.position? key = some i then value.normalized else s.get key := by
  obtain ⟨position, hposition⟩ : ∃ position, s.position? key = some position := by
    rwa [← h.contains_iff, contains_eq_isSome_position?, Option.isSome_iff_exists] at hkey
  have hlt := h.lt_of_position? hposition
  have hold := h.at?_of_position? hposition
  have hnew : (s.setAt i value).at? position = some ((s.setAt i value).get key) :=
    (h.setAt i value).at?_of_position? hposition
  rw [at?_eq_getElem?_values, values_setAt, List.getElem?_set] at hnew
  rw [at?_eq_getElem?_values] at hold
  by_cases hi : i = position
  · rw [if_pos hi, if_pos (hi ▸ hlt)] at hnew
    rw [if_pos (hi ▸ hposition)]
    exact (Option.some.inj hnew).symm
  · rw [if_neg hi, hold] at hnew
    rw [if_neg (fun hsame => hi (Option.some.inj (hsame.symm.trans hposition)))]
    exact (Option.some.inj hnew).symm

/-- After a write an entry holds the value that was meant for it, or the one that it had. -/
theorem WellFormed.get_write (h : s.WellFormed) (w : Write) (hkey : key ∈ s.keys) :
    (s.write w).get key = ((s.meantFor key w).map Value.normalized).getD (s.get key) := by
  obtain ⟨i, value, hw, hmeant⟩ | ⟨value, hw, hmeant⟩ | ⟨refusal, hw, hmeant⟩ := h.write_cases w
  · rw [write_of_attempt_ok hw, h.get_setAt hkey, hmeant]
    by_cases hi : s.position? key = some i
    · rw [if_pos hi, if_pos hi]
      rfl
    · rw [if_neg hi, if_neg hi]
      rfl
  · rw [write_of_attempt_ok hw, hmeant]
    exact h.get_mapValues _ hkey
  · rw [write_of_attempt_error hw, hmeant key hkey]
    rfl

/-! ## Runs -/

theorem writeAll_concat (s : KeyedSet) (writes : List Write) (w : Write) :
    s.writeAll (writes ++ [w]) = (s.writeAll writes).write w :=
  writeAll_append s writes [w]

theorem WellFormed.writeAll (h : s.WellFormed) (writes : List Write) :
    (s.writeAll writes).WellFormed := by
  induction writes generalizing s with
  | nil => exact h
  | cons w rest ih => exact ih (h.write w)

theorem WellFormed.exists_writeAll_eq (h : s.WellFormed) (writes : List Write) :
    ∃ values, s.writeAll writes = { s with valueArray := values } := by
  induction writes generalizing s with
  | nil => exact ⟨s.valueArray, rfl⟩
  | cons w rest ih =>
      obtain ⟨first, hfirst⟩ := h.exists_write_eq w
      obtain ⟨last, hlast⟩ := ih (h.write w)
      refine ⟨last, ?_⟩
      rw [KeyedSet.writeAll, hlast, hfirst]

/-- The slots of a set stay where they are, so a write means the same entries at any time. -/
theorem WellFormed.meantFor_writeAll (h : s.WellFormed) (writes : List Write) (key : String) :
    (s.writeAll writes).meantFor key = s.meantFor key := by
  obtain ⟨values, hvalues⟩ := h.exists_writeAll_eq writes
  funext w
  rw [hvalues]
  cases w <;> rfl

/-- The last of the values that were meant for an entry is the one that it holds. -/
theorem WellFormed.get_writeAll (h : s.WellFormed) (writes : List Write) (hkey : key ∈ s.keys) :
    (s.writeAll writes).get key =
      ((writes.filterMap (s.meantFor key)).getLast?.map Value.normalized).getD (s.get key) := by
  induction writes using List.reverseRecOn with
  | nil => rfl
  | append_singleton writes w ih =>
      have hheld : key ∈ (s.writeAll writes).keys := by
        obtain ⟨values, hvalues⟩ := h.exists_writeAll_eq writes
        rw [hvalues]
        exact hkey
      rw [writeAll_concat, (h.writeAll writes).get_write w hheld, h.meantFor_writeAll,
        List.filterMap_append]
      cases hmeant : s.meantFor key w with
      | none => simpa [hmeant] using ih
      | some value => simp [hmeant]

/-- Leaving out the writes that are refused on the way gives the same set. -/
theorem writeAll_carriedOut (s : KeyedSet) (writes : List Write) :
    s.writeAll (s.carriedOut writes) = s.writeAll writes := by
  induction writes generalizing s with
  | nil => rfl
  | cons w rest ih =>
      unfold carriedOut
      cases hw : s.attempt w with
      | error refusal => rw [KeyedSet.writeAll, write_of_attempt_error hw, ih]
      | ok t => rw [KeyedSet.writeAll, KeyedSet.writeAll, write_of_attempt_ok hw, ih]

/-- What some writes make of a set, and which writes are refused after them. -/
structure LastWriteWins (s : KeyedSet) (writes : List Write) : Prop where
  name_eq : (s.writeAll writes).name = s.name
  kind_eq : (s.writeAll writes).kind = s.kind
  keys_eq : (s.writeAll writes).keys = s.keys
  position?_eq : ∀ key, (s.writeAll writes).position? key = s.position? key
  /-- An entry holds the last value that was meant for it, checked, or else the one that it had. -/
  get_eq : ∀ key ∈ s.keys, (s.writeAll writes).get key =
    ((writes.filterMap (s.meantFor key)).getLast?.map Value.normalized).getD (s.get key)
  /-- An assignment by key is refused for a key that the set does not hold, and only then. -/
  assign_refused_iff : ∀ key value refusal,
    (s.writeAll writes).attempt (.assign key value) = .error refusal ↔
      key ∉ s.keys ∧ refusal = .error (.unknownKey s.name key)
  /-- An assignment by position is refused beyond the end, and only there. -/
  assignAt_refused_iff : ∀ i value refusal,
    (s.writeAll writes).attempt (.assignAt i value) = .error refusal ↔
      s.size ≤ i ∧ refusal = .beyondEnd
  refused_unchanged : ∀ w refusal, (s.writeAll writes).attempt w = .error refusal →
    s.writeAll (writes ++ [w]) = s.writeAll writes
  carriedOut_eq : s.writeAll (s.carriedOut writes) = s.writeAll writes

/-- Along every run of writes the last one that found its slot decides, and refused ones do not count. -/
theorem Reachable.lastWriteWins (h : Reachable s) (writes : List Write) :
    s.LastWriteWins writes := by
  have hwell := h.wellFormed
  have hafter := hwell.writeAll writes
  obtain ⟨values, hvalues⟩ := hwell.exists_writeAll_eq writes
  have hname : (s.writeAll writes).name = s.name := by rw [hvalues]
  have hkeys : (s.writeAll writes).keys = s.keys := by
    rw [hvalues]
    rfl
  have hsize : (s.writeAll writes).size = s.size := by rw [← length_keys, hkeys, length_keys]
  constructor
  case name_eq => exact hname
  case kind_eq => rw [hvalues]
  case keys_eq => exact hkeys
  case position?_eq =>
    intro key
    rw [hvalues]
    rfl
  case get_eq => exact fun key hkey => hwell.get_writeAll writes hkey
  case assign_refused_iff =>
    intro key value refusal
    rw [hafter.attempt_assign_eq_error_iff, hkeys, hname]
  case assignAt_refused_iff =>
    intro i value refusal
    rw [hafter.attempt_assignAt_eq_error_iff, hsize]
  case refused_unchanged =>
    intro w refusal hw
    rw [writeAll_concat, write_of_attempt_error hw]
  case carriedOut_eq => exact s.writeAll_carriedOut writes

theorem lastWriteWins_of_wells :
    let s := ((bare "WA" .well).push "P1" (.defined 1.0)).push "P2" .undefined
    let writes : List Write := [.assign "P2" (.defined 5.0), .assignAt 7 (.defined 9.0),
      .assignAll (.defined Binary64.notANumber), .assign "P9" (.defined 4.0),
      .assignAt 0 (.defined 2.0)]
    Reachable s ∧ s.LastWriteWins writes ∧ (s.writeAll writes).get "P1" = .defined 2.0 ∧
      (s.writeAll writes).get "P2" = .undefined ∧
      s.writeAll (writes ++ [.assignAt 2 .undefined]) = s.writeAll writes := by
  intro s writes
  have hs : KeyedSet.ofEntries "WA" .well [("P1", .defined 1.0), ("P2", .undefined)] = .ok s := rfl
  have hwrites := (Reachable.ofEntries hs).lastWriteWins writes
  have hrefused : (s.writeAll writes).attempt (.assignAt 2 .undefined) = .error .beyondEnd :=
    (hwrites.assignAt_refused_iff 2 _ _).mpr ⟨Nat.le_refl 2, rfl⟩
  refine ⟨.ofEntries hs, hwrites, ?_, ?_, hwrites.refused_unchanged _ _ hrefused⟩
  · rw [hwrites.get_eq "P1" (by decide)]
    rfl
  · rw [hwrites.get_eq "P2" (by decide)]
    rfl

end KeyedSet

end Quantities
