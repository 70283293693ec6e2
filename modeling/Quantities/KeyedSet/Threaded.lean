import Quantities.KeyedSet.Basic

/-!
# Threading a state through a set

Some functions of a set carry a state from entry to entry: a generator that is drawn from, or the
sorted values that are still to be laid out.  The state is threaded through the values in key order.
-/

namespace Quantities

namespace KeyedSet

def threadValues {σ : Type} (step : σ → Value → Value × σ) :
    σ → List Value → List Value × σ
  | state, [] => ([], state)
  | state, value :: rest =>
      let (value, state) := step state value
      let (rest, state) := threadValues step state rest
      (value.normalized :: rest, state)

/-- Replaces the values of a set in key order, passing a state along, and checks the results. -/
def mapThreaded {σ : Type} (s : KeyedSet) (step : σ → Value → Value × σ) (state : σ) :
    KeyedSet × σ :=
  let (values, state) := threadValues step state s.values
  ({ s with valueArray := values.toArray }, state)

theorem length_threadValues {σ : Type} (step : σ → Value → Value × σ) (state : σ)
    (values : List Value) :
    (threadValues step state values).1.length = values.length := by
  induction values generalizing state with
  | nil => rfl
  | cons value rest ih =>
      simp [threadValues, ih]

/-- A step that passes nothing along maps every value by itself. -/
theorem threadValues_of_stateless (f : Value → Value) (values : List Value) :
    (threadValues (fun _ value => (f value, ())) () values).1 =
      values.map fun value => (f value).normalized := by
  induction values with
  | nil => rfl
  | cons value rest ih =>
      simp [threadValues, ih]

@[simp] theorem name_mapThreaded {σ : Type} (s : KeyedSet) (step : σ → Value → Value × σ)
    (state : σ) : (s.mapThreaded step state).1.name = s.name :=
  rfl

@[simp] theorem kind_mapThreaded {σ : Type} (s : KeyedSet) (step : σ → Value → Value × σ)
    (state : σ) : (s.mapThreaded step state).1.kind = s.kind :=
  rfl

@[simp] theorem position?_mapThreaded {σ : Type} (s : KeyedSet) (step : σ → Value → Value × σ)
    (state : σ) (key : String) :
    (s.mapThreaded step state).1.position? key = s.position? key :=
  rfl

@[simp] theorem keys_mapThreaded {σ : Type} (s : KeyedSet) (step : σ → Value → Value × σ)
    (state : σ) : (s.mapThreaded step state).1.keys = s.keys :=
  rfl

@[simp] theorem values_mapThreaded {σ : Type} (s : KeyedSet) (step : σ → Value → Value × σ)
    (state : σ) :
    (s.mapThreaded step state).1.values = (threadValues step state s.values).1 := by
  simp [mapThreaded, values]

theorem mapThreaded_of_stateless (s : KeyedSet) (f : Value → Value) :
    (s.mapThreaded (fun _ value => (f value, ())) ()).1 = s.mapValues f := by
  simp only [mapThreaded, threadValues_of_stateless, mapValues, values]
  rw [← Array.toList_map, Array.toArray_toList]

end KeyedSet

end Quantities
