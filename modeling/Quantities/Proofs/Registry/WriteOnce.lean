import Quantities.Proofs.Text.ByteOrder
import Quantities.Registry.Catalogue

/-!
# The registry over whole runs

A run is a sequence of calls, each of which puts forward one function or the whole catalogue.  What the
registry holds afterwards is determined by the functions put forward, in order: under a family and a
name stands the first of them that has the family, the name and a valid spelling of it.
-/

namespace Quantities

namespace Registry

variable {r : Registry}

/-! ## Calls and their history -/

inductive Call where
  | register (f : SetFunction)
  | loadCatalogue

def Call.functions : Call → List SetFunction
  | .register f => [f]
  | .loadCatalogue => catalogue

/-- The registry after a call, and the error that the call answers with. -/
def perform (r : Registry) : Call → Registry × Option SetupError
  | .register f =>
      match r.register f with
      | .ok r' => (r', none)
      | .error e => (r, some e)
  | .loadCatalogue => r.loadCatalogue

def run (r : Registry) : List Call → Registry
  | [] => r
  | call :: rest => (r.perform call).1.run rest

/-- A function that was put forward, and why it was refused if it was. -/
structure Attempt where
  function : SetFunction
  refusal : Option SetupError

/-- The attempts to register some functions in order; a refused one is the last. -/
def attempts (r : Registry) : List SetFunction → List Attempt
  | [] => []
  | f :: rest =>
      match r.register f with
      | .ok r' => ⟨f, none⟩ :: r'.attempts rest
      | .error e => [⟨f, some e⟩]

def history (r : Registry) : List Call → List Attempt
  | [] => []
  | call :: rest => r.attempts call.functions ++ (r.perform call).1.history rest

theorem perform_eq_registerAll (r : Registry) (call : Call) :
    r.perform call = r.registerAll call.functions := by
  cases call with
  | register f => cases hf : r.register f <;> simp [perform, Call.functions, registerAll, hf]
  | loadCatalogue => rfl

theorem run_append (r : Registry) (calls more : List Call) :
    r.run (calls ++ more) = (r.run calls).run more := by
  induction calls generalizing r with
  | nil => rfl
  | cons call rest ih => exact ih _

theorem history_append (r : Registry) (calls more : List Call) :
    r.history (calls ++ more) = r.history calls ++ (r.run calls).history more := by
  induction calls generalizing r with
  | nil => rfl
  | cons call rest ih =>
      rw [List.cons_append, history, history, ih, List.append_assoc]
      rfl

/-! ## What the attempts determine -/

def fits (family : Family) (name : String) (f : SetFunction) : Bool :=
  isValidName f.name && decide (f.family = family ∧ f.name = name)

/-- Why a function is refused after others were put forward, if it is. -/
def outcome (earlier : List SetFunction) (f : SetFunction) : Option SetupError :=
  if !isValidName f.name then
    some (.invalidName f.name)
  else if earlier.any (fits f.family f.name) then
    some (.duplicateFunction f.family f.name)
  else
    none

def tried (log : List Attempt) : List SetFunction :=
  log.map Attempt.function

def accepted (log : List Attempt) : List Attempt :=
  log.filter fun attempt => attempt.refusal.isNone

theorem fits_iff {family : Family} {name : String} {f : SetFunction} :
    fits family name f = true ↔ isValidName f.name = true ∧ f.family = family ∧ f.name = name := by
  simp [fits]

variable {earlier : List SetFunction} {f : SetFunction} {family : Family} {name : String}

theorem outcome_eq_none_iff : outcome earlier f = none ↔
    isValidName f.name = true ∧ earlier.any (fits f.family f.name) = false := by
  unfold outcome
  split
  · simp_all
  · split <;> simp_all

/-- A refused function is never the first that fits: it fits nowhere, or another one came before it. -/
theorem find?_concat_of_refused {e : SetupError} (h : outcome earlier f = some e) :
    (earlier ++ [f]).find? (fits family name) = earlier.find? (fits family name) := by
  rw [List.find?_append]
  by_cases hfits : fits family name f = true
  · obtain ⟨hvalid, rfl, rfl⟩ := fits_iff.mp hfits
    have hany : earlier.any (fits f.family f.name) = true := by
      by_contra hfree
      have haccepted := outcome_eq_none_iff.mpr ⟨hvalid, Bool.not_eq_true _ ▸ hfree⟩
      rw [haccepted] at h
      cases h
    obtain ⟨first, hfirst⟩ := Option.isSome_iff_exists.mp
      (List.find?_isSome.mpr (List.any_eq_true.mp hany))
    rw [hfirst]
    rfl
  · simp [hfits]

/-- An accepted function is the first that fits its own family and name. -/
theorem find?_concat_of_accepted (h : outcome earlier f = none) :
    (earlier ++ [f]).find? (fits family name) =
      if f.family = family ∧ f.name = name then some f else earlier.find? (fits family name) := by
  obtain ⟨hvalid, hfree⟩ := outcome_eq_none_iff.mp h
  have hnone : earlier.find? (fits f.family f.name) = none := by
    simpa [List.find?_eq_none] using hfree
  rw [List.find?_append]
  by_cases hhere : f.family = family ∧ f.name = name
  · obtain ⟨rfl, rfl⟩ := hhere
    simp [hnone, fits, hvalid]
  · simp [fits, hhere]

theorem size_insert (h : r.contains f.family f.name = false) : (r.insert f).size = r.size + 1 := by
  cases f <;>
    simp only [contains, SetFunction.family, SetFunction.name] at h <;>
    simp only [size, insert, Std.TreeMap.size_insert, h, Bool.false_eq_true, if_false] <;>
    omega

theorem register_eq_ok {r' : Registry} (h : r.register f = .ok r') :
    isValidName f.name = true ∧ r.contains f.family f.name = false ∧ r' = r.insert f := by
  unfold register at h
  split at h
  · cases h
  · split at h
    · cases h
    · cases h
      simp_all

/-! ## One attempt, and runs of them -/

/-- The registry is the one that the attempts lead to, and each of them ended as those before it demand. -/
structure Records (log : List Attempt) (r : Registry) : Prop where
  get?_eq : ∀ family name, r.get? family name = (tried log).find? (fits family name)
  refusal_eq : ∀ earlier attempt later, log = earlier ++ attempt :: later →
    attempt.refusal = outcome (tried earlier) attempt.function
  size_eq : r.size = (accepted log).length

theorem records_empty : Records [] empty where
  get?_eq family name := by cases family <;> rfl
  refusal_eq earlier attempt later h := by simp at h
  size_eq := rfl

namespace Records

variable {log : List Attempt}

theorem contains_eq (h : Records log r) (family : Family) (name : String) :
    r.contains family name = (tried log).any (fits family name) := by
  rw [contains_eq_isSome_get?, h.get?_eq, Bool.eq_iff_iff, List.find?_isSome, List.any_eq_true]

/-- Registration is decided by the functions put forward before. -/
theorem register_eq (h : Records log r) (f : SetFunction) :
    r.register f =
      match outcome (tried log) f with
      | some e => .error e
      | none => .ok (r.insert f) := by
  unfold register outcome
  rw [h.contains_eq]
  split
  · rfl
  · split <;> rfl

private theorem refusal_eq_concat (h : Records log r) (last : Attempt)
    (hlast : last.refusal = outcome (tried log) last.function) (earlier : List Attempt)
    (attempt : Attempt) (later : List Attempt) (heq : log ++ [last] = earlier ++ attempt :: later) :
    attempt.refusal = outcome (tried earlier) attempt.function := by
  rcases List.eq_nil_or_concat later with rfl | ⟨init, end', rfl⟩
  · obtain ⟨rfl, hsame⟩ := List.append_inj' heq rfl
    cases hsame
    exact hlast
  · have hinit : log ++ [last] = (earlier ++ attempt :: init) ++ [end'] := by
      simpa [List.concat_eq_append] using heq
    exact h.refusal_eq earlier attempt init (List.append_inj' hinit rfl).1

/-- A refused attempt leaves the registry as it is. -/
theorem refused {e : SetupError} (h : Records log r) (hf : r.register f = .error e) :
    Records (log ++ [⟨f, some e⟩]) r := by
  have houtcome : outcome (tried log) f = some e := by
    rw [h.register_eq] at hf
    split at hf
    · next hsome =>
      cases hf
      exact hsome
    · cases hf
  refine ⟨fun family name => ?_, h.refusal_eq_concat _ houtcome.symm, ?_⟩
  · rw [h.get?_eq]
    simpa [tried] using (find?_concat_of_refused houtcome).symm
  · rw [h.size_eq]
    simp [accepted]

/-- An accepted attempt adds its function and nothing else. -/
theorem accepted {r' : Registry} (h : Records log r) (hf : r.register f = .ok r') :
    Records (log ++ [⟨f, none⟩]) r' := by
  obtain ⟨hvalid, hfree, rfl⟩ := register_eq_ok hf
  have houtcome : outcome (tried log) f = none := by
    rw [outcome_eq_none_iff, ← h.contains_eq]
    exact ⟨hvalid, hfree⟩
  refine ⟨fun family name => ?_, h.refusal_eq_concat _ houtcome.symm, ?_⟩
  · rw [get?_insert, h.get?_eq]
    simpa [tried] using (find?_concat_of_accepted houtcome).symm
  · rw [size_insert hfree, h.size_eq]
    simp [Registry.accepted]

/-- A bulk registration, by induction on the functions that are left. -/
theorem registerAll (h : Records log r) (functions : List SetFunction) :
    Records (log ++ r.attempts functions) (r.registerAll functions).1 := by
  induction functions generalizing r log with
  | nil => simpa [attempts, Registry.registerAll] using h
  | cons f rest ih =>
      unfold attempts Registry.registerAll
      cases hf : r.register f with
      | error e => exact h.refused hf
      | ok r' => simpa using ih (h.accepted hf)

theorem run (h : Records log r) (calls : List Call) :
    Records (log ++ r.history calls) (r.run calls) := by
  induction calls generalizing r log with
  | nil => simpa [history, Registry.run] using h
  | cons call rest ih =>
      have hcall : Records (log ++ r.attempts call.functions) (r.perform call).1 := by
        rw [perform_eq_registerAll]
        exact h.registerAll call.functions
      simpa [history, Registry.run] using ih hcall

end Records

/-- Whatever the calls, the registry that they lead to from the empty one records their history. -/
theorem records_run (calls : List Call) : Records (empty.history calls) (empty.run calls) :=
  records_empty.run calls

/-! ## What a call changes -/

theorem perform_register_of_refused {e : SetupError} (h : (r.perform (.register f)).2 = some e) :
    (r.perform (.register f)).1 = r := by
  simp only [perform] at h ⊢
  cases hf : r.register f with
  | error e' => rfl
  | ok r' =>
      rw [hf] at h
      cases h

theorem get?_perform_register (h : ¬(f.family = family ∧ f.name = name)) :
    (r.perform (.register f)).1.get? family name = r.get? family name := by
  simp only [perform]
  cases hf : r.register f with
  | error e => rfl
  | ok r' =>
      obtain ⟨-, -, rfl⟩ := register_eq_ok hf
      exact (get?_insert _ _ _ _).trans (if_neg h)

/-- The first function that fits stays the first one when others are put forward after it. -/
theorem get?_run_append {calls : List Call} (h : (empty.run calls).get? family name = some f)
    (more : List Call) : (empty.run (calls ++ more)).get? family name = some f := by
  rw [(records_run calls).get?_eq] at h
  rw [(records_run (calls ++ more)).get?_eq, history_append, tried, List.map_append,
    List.find?_append]
  rw [tried] at h
  rw [h]
  rfl

/-- The error of a call is the refusal of the last attempt that it makes. -/
theorem registerAll_snd (r : Registry) (functions : List SetFunction) :
    (r.registerAll functions).2 = (r.attempts functions).getLast?.bind Attempt.refusal := by
  induction functions generalizing r with
  | nil => rfl
  | cons f rest ih =>
      unfold attempts registerAll
      cases r.register f with
      | error e => rfl
      | ok r' =>
          simp only [ih r', List.getLast?_cons]
          cases (r'.attempts rest).getLast? <;> rfl

/-! ## Queries -/

theorem mem_names_iff : name ∈ r.names family ↔ r.contains family name = true := by
  cases family <;> simp [names, contains, Std.TreeMap.mem_keys]

theorem pairwise_keys {α : Type} (entries : Std.TreeMap String α) :
    entries.keys.Pairwise fun a b => utf8Bytes a < utf8Bytes b := by
  refine entries.ordered_keys.imp fun {a b} hab => utf8Bytes_lt ?_
  exact compareOfLessAndEq_eq_lt.mp hab

theorem pairwise_names (r : Registry) (family : Family) :
    (r.names family).Pairwise fun a b => utf8Bytes a < utf8Bytes b := by
  cases family <;> exact pairwise_keys _

theorem Records.family_and_name {log : List Attempt} (h : Records log r)
    (hf : r.get? family name = some f) : f.family = family ∧ f.name = name := by
  rw [h.get?_eq] at hf
  have hfits : fits family name f = true := List.find?_some hf
  exact (fits_iff.mp hfits).2

/-! ## The registry as a write-once map -/

structure WriteOnce (calls : List Call) : Prop where
  /-- Under a family and a name stands the first function put forward that fits there. -/
  first : ∀ family name, (empty.run calls).get? family name =
    (tried (empty.history calls)).find? (fits family name)
  /-- A function is refused for its name, or for an earlier one of its family and name, and else not. -/
  refusal : ∀ earlier attempt later, empty.history calls = earlier ++ attempt :: later →
    attempt.refusal = outcome (tried earlier) attempt.function
  /-- A call reports the refusal that ended it. -/
  answer : ∀ call, ((empty.run calls).perform call).2 =
    ((empty.run calls).attempts call.functions).getLast?.bind Attempt.refusal
  /-- A failing registration changes nothing. -/
  unchanged : ∀ f e, ((empty.run calls).perform (.register f)).2 = some e →
    empty.run (calls ++ [.register f]) = empty.run calls
  /-- No later call replaces or removes a function. -/
  kept : ∀ more family name f, (empty.run calls).get? family name = some f →
    (empty.run (calls ++ more)).get? family name = some f
  /-- A registration is seen under its own family and name only. -/
  apart : ∀ f family name, ¬(f.family = family ∧ f.name = name) →
    (empty.run (calls ++ [.register f])).get? family name = (empty.run calls).get? family name
  /-- A function stands under its own family and its own name. -/
  identity : ∀ family name f, (empty.run calls).get? family name = some f →
    f.family = family ∧ f.name = name
  contains_iff : ∀ family name, (empty.run calls).contains family name = true ↔
    ((empty.run calls).get? family name).isSome = true
  scalar?_eq : ∀ name, (empty.run calls).get? .scalar name =
    ((empty.run calls).scalar? name).map .scalar
  unary?_eq : ∀ name, (empty.run calls).get? .unary name =
    ((empty.run calls).unary? name).map .unary
  binary?_eq : ∀ name, (empty.run calls).get? .binary name =
    ((empty.run calls).binary? name).map .binary
  /-- The names of a family are those under which it has a function. -/
  names_complete : ∀ family name, name ∈ (empty.run calls).names family ↔
    (empty.run calls).contains family name = true
  names_ascending : ∀ family, ((empty.run calls).names family).Pairwise
    fun a b => utf8Bytes a < utf8Bytes b
  size_eq : (empty.run calls).size = (accepted (empty.history calls)).length
  isEmpty_iff : (empty.run calls).isEmpty = true ↔ accepted (empty.history calls) = []

theorem writeOnce (calls : List Call) : WriteOnce calls where
  first := (records_run calls).get?_eq
  refusal := (records_run calls).refusal_eq
  answer call := by rw [perform_eq_registerAll, registerAll_snd]
  unchanged f e h := by
    rw [run_append]
    exact perform_register_of_refused h
  kept more family name f h := get?_run_append h more
  apart f family name h := by
    rw [run_append]
    exact get?_perform_register h
  identity family name f h := (records_run calls).family_and_name h
  contains_iff family name := by rw [contains_eq_isSome_get?]
  scalar?_eq name := rfl
  unary?_eq name := rfl
  binary?_eq name := rfl
  names_complete family name := mem_names_iff
  names_ascending := pairwise_names _
  size_eq := (records_run calls).size_eq
  isEmpty_iff := by
    rw [isEmpty, beq_iff_eq, (records_run calls).size_eq, List.length_eq_zero_iff]

end Registry

end Quantities
