import Std.Data.TreeMap
import Quantities.SetupError
import Quantities.Value

/-!
# Keyed sets

An ordered sequence of keyed values with a name and a kind.  Keys are distinct and fixed when the set
is built, and their order is the order in which results, sorts and draws are laid out.  Keys and values
are kept apart, one value for each key at the same position; next to them a set carries the position of
each key.  Every value is checked when it is stored.
-/

namespace Quantities

/-- A named sequence of values under distinct keys, with the position of each key. -/
structure KeyedSet where
  name : String
  kind : Kind
  keyArray : Array String
  valueArray : Array Value
  index : Std.TreeMap String Nat
deriving BEq

namespace KeyedSet

def bare (name : String) (kind : Kind) : KeyedSet where
  name := name
  kind := kind
  keyArray := #[]
  valueArray := #[]
  index := ∅

def size (s : KeyedSet) : Nat :=
  s.keyArray.size

def isEmpty (s : KeyedSet) : Bool :=
  s.keyArray.isEmpty

def keys (s : KeyedSet) : List String :=
  s.keyArray.toList

def values (s : KeyedSet) : List Value :=
  s.valueArray.toList

def entries (s : KeyedSet) : Array (String × Value) :=
  s.keyArray.zip s.valueArray

def contains (s : KeyedSet) (key : String) : Bool :=
  s.index.contains key

def position? (s : KeyedSet) (key : String) : Option Nat :=
  s.index[key]?

def at? (s : KeyedSet) (position : Nat) : Option Value :=
  s.valueArray[position]?

/-- The value under a key; a key that the set does not hold reads as undefined. -/
def get (s : KeyedSet) (key : String) : Value :=
  match s.position? key with
  | some position => (s.at? position).getD .undefined
  | none => .undefined

/-- The value that a scalar-typed set broadcasts: that of its first entry. -/
def scalarValue (s : KeyedSet) : Value :=
  (s.at? 0).getD .undefined

def definedValues (s : KeyedSet) : List Float :=
  s.values.filterMap Value.number?

def definedCount (s : KeyedSet) : Nat :=
  s.values.countP Value.isDefined

/-- Appends an entry under a key that the set does not hold yet. -/
def push (s : KeyedSet) (key : String) (value : Value) : KeyedSet :=
  { s with
    keyArray := s.keyArray.push key
    valueArray := s.valueArray.push value.normalized
    index := s.index.insert key s.size }

/-- Appends entries one by one, up to the first key that is there already. -/
def pushAll (s : KeyedSet) : List (String × Value) → Except SetupError KeyedSet
  | [] => .ok s
  | (key, value) :: rest =>
      if s.contains key then
        .error (.duplicateKey s.name key)
      else
        (s.push key value).pushAll rest

/-- The set with entries appended, whether their keys are new or not. -/
def extend (s : KeyedSet) (entries : List (String × Value)) : KeyedSet :=
  entries.foldl (fun s entry => s.push entry.1 entry.2) s

/-- A set from its entries in order.  Keys must be distinct, and a scalar-typed set has one entry. -/
def ofEntries (name : String) (kind : Kind) (entries : List (String × Value)) :
    Except SetupError KeyedSet :=
  match (bare name kind).pushAll entries with
  | .error e => .error e
  | .ok s =>
      if kind.isScalar && s.size != 1 then
        .error (.scalarShape name kind s.size)
      else
        .ok s

def ofKeys (name : String) (kind : Kind) (keys : List String) : Except SetupError KeyedSet :=
  ofEntries name kind (keys.map fun key => (key, .undefined))

def filled (name : String) (kind : Kind) (keys : List String) (value : Value) :
    Except SetupError KeyedSet :=
  ofEntries name kind (keys.map fun key => (key, value))

def wells (name : String) (keys : List String) (value : Value) : Except SetupError KeyedSet :=
  filled name .well keys value

def groups (name : String) (keys : List String) (value : Value) : Except SetupError KeyedSet :=
  filled name .group keys value

/-- A single value that belongs to no entity; its key is the empty string. -/
def scalar (name : String) (value : Value) : KeyedSet :=
  (bare name .scalar).push "" value

def empty (name : String) : KeyedSet :=
  scalar name .undefined

def fieldKey : String :=
  "FIELD"

def field (name : String) (value : Value) : KeyedSet :=
  (bare name .field).push fieldKey value

/-- Puts a value at a position; nothing changes beyond the end. -/
def setAt (s : KeyedSet) (position : Nat) (value : Value) : KeyedSet :=
  { s with valueArray := s.valueArray.setIfInBounds position value.normalized }

def assign (s : KeyedSet) (key : String) (value : Value) : Except SetupError KeyedSet :=
  match s.position? key with
  | some position => .ok (s.setAt position value)
  | none => .error (.unknownKey s.name key)

/-- Assigns the value at a position; there is no answer beyond the end. -/
def assignAt? (s : KeyedSet) (position : Nat) (value : Value) : Option KeyedSet :=
  if position < s.valueArray.size then some (s.setAt position value) else none

def assignFrom (s : KeyedSet) (position : Nat) : List Value → KeyedSet
  | [] => s
  | value :: rest => (s.setAt position value).assignFrom (position + 1) rest

/-- Applies a function to each value and checks the results. -/
def mapValues (s : KeyedSet) (f : Value → Value) : KeyedSet :=
  { s with valueArray := s.valueArray.map fun value => (f value).normalized }

def mapDefined (s : KeyedSet) (f : Float → Value) : KeyedSet :=
  s.mapValues fun value => value.andThen f

def assignAll (s : KeyedSet) (value : Value) : KeyedSet :=
  s.mapValues fun _ => value

def renamed (s : KeyedSet) (name : String) : KeyedSet :=
  { s with name := name }

/-! ### What each operation does to keys, values and positions -/

theorem contains_eq_isSome_position? (s : KeyedSet) (key : String) :
    s.contains key = (s.position? key).isSome := by
  simp [contains, position?]

@[simp] theorem length_keys (s : KeyedSet) :
    s.keys.length = s.size := by
  simp [keys, size]

theorem at?_eq_getElem?_values (s : KeyedSet) (position : Nat) :
    s.at? position = s.values[position]? := by
  simp [at?, values]

theorem toList_entries (s : KeyedSet) :
    s.entries.toList = s.keys.zip s.values := by
  simp [entries, keys, values]

@[simp] theorem keys_bare (name : String) (kind : Kind) :
    (bare name kind).keys = [] :=
  rfl

@[simp] theorem position?_bare (name : String) (kind : Kind) (key : String) :
    (bare name kind).position? key = none := by
  simp [bare, position?]

@[simp] theorem name_push (s : KeyedSet) (key : String) (value : Value) :
    (s.push key value).name = s.name :=
  rfl

@[simp] theorem kind_push (s : KeyedSet) (key : String) (value : Value) :
    (s.push key value).kind = s.kind :=
  rfl

@[simp] theorem size_push (s : KeyedSet) (key : String) (value : Value) :
    (s.push key value).size = s.size + 1 := by
  simp [push, size]

@[simp] theorem keys_push (s : KeyedSet) (key : String) (value : Value) :
    (s.push key value).keys = s.keys ++ [key] := by
  simp [push, keys]

@[simp] theorem values_push (s : KeyedSet) (key : String) (value : Value) :
    (s.push key value).values = s.values ++ [value.normalized] := by
  simp [push, values]

@[simp] theorem name_extend (s : KeyedSet) (entries : List (String × Value)) :
    (s.extend entries).name = s.name := by
  induction entries generalizing s with
  | nil => rfl
  | cons entry rest ih => exact ih (s.push entry.1 entry.2)

@[simp] theorem kind_extend (s : KeyedSet) (entries : List (String × Value)) :
    (s.extend entries).kind = s.kind := by
  induction entries generalizing s with
  | nil => rfl
  | cons entry rest ih => exact ih (s.push entry.1 entry.2)

@[simp] theorem keys_extend (s : KeyedSet) (entries : List (String × Value)) :
    (s.extend entries).keys = s.keys ++ entries.map Prod.fst := by
  induction entries generalizing s with
  | nil => simp [extend]
  | cons entry rest ih =>
      have hrest := ih (s.push entry.1 entry.2)
      rw [keys_push, List.append_assoc] at hrest
      exact hrest

@[simp] theorem values_extend (s : KeyedSet) (entries : List (String × Value)) :
    (s.extend entries).values = s.values ++ entries.map fun entry => entry.2.normalized := by
  induction entries generalizing s with
  | nil => simp [extend]
  | cons entry rest ih =>
      have hrest := ih (s.push entry.1 entry.2)
      rw [values_push, List.append_assoc] at hrest
      exact hrest

@[simp] theorem name_setAt (s : KeyedSet) (position : Nat) (value : Value) :
    (s.setAt position value).name = s.name :=
  rfl

@[simp] theorem kind_setAt (s : KeyedSet) (position : Nat) (value : Value) :
    (s.setAt position value).kind = s.kind :=
  rfl

@[simp] theorem keys_setAt (s : KeyedSet) (position : Nat) (value : Value) :
    (s.setAt position value).keys = s.keys :=
  rfl

@[simp] theorem values_setAt (s : KeyedSet) (position : Nat) (value : Value) :
    (s.setAt position value).values = s.values.set position value.normalized := by
  simp [setAt, values]

@[simp] theorem position?_setAt (s : KeyedSet) (position : Nat) (value : Value) (key : String) :
    (s.setAt position value).position? key = s.position? key :=
  rfl

@[simp] theorem name_assignFrom (s : KeyedSet) (position : Nat) (values : List Value) :
    (s.assignFrom position values).name = s.name := by
  induction values generalizing s position with
  | nil => rfl
  | cons value rest ih => simp [assignFrom, ih]

@[simp] theorem kind_assignFrom (s : KeyedSet) (position : Nat) (values : List Value) :
    (s.assignFrom position values).kind = s.kind := by
  induction values generalizing s position with
  | nil => rfl
  | cons value rest ih => simp [assignFrom, ih]

@[simp] theorem keys_assignFrom (s : KeyedSet) (position : Nat) (values : List Value) :
    (s.assignFrom position values).keys = s.keys := by
  induction values generalizing s position with
  | nil => rfl
  | cons value rest ih => simp [assignFrom, ih]

/-- The assigned values take the place of as many values from the position on. -/
theorem values_assignFrom (s : KeyedSet) (position : Nat) (values : List Value)
    (h : position + values.length ≤ s.values.length) :
    (s.assignFrom position values).values =
      s.values.take position ++ values.map Value.normalized ++
        s.values.drop (position + values.length) := by
  induction values generalizing s position with
  | nil => simp [assignFrom]
  | cons value rest ih =>
      rw [List.length_cons] at h
      have hlt : position < s.values.length := by omega
      have htake : (s.values.set position value.normalized).take (position + 1) =
          s.values.take position ++ [value.normalized] := by
        rw [List.take_set, List.take_add_one, List.getElem?_eq_getElem hlt,
          List.set_append_right _ _ (List.length_take_le _ _)]
        simp [Nat.min_eq_left (Nat.le_of_lt hlt)]
      have hrest : position + 1 + rest.length ≤ (s.setAt position value).values.length := by
        rw [values_setAt, List.length_set]
        omega
      rw [assignFrom, ih (s.setAt position value) (position + 1) hrest, values_setAt, htake,
        List.drop_set_of_lt (by omega)]
      simp [Nat.add_comm, Nat.add_left_comm]

@[simp] theorem name_mapValues (s : KeyedSet) (f : Value → Value) :
    (s.mapValues f).name = s.name :=
  rfl

@[simp] theorem kind_mapValues (s : KeyedSet) (f : Value → Value) :
    (s.mapValues f).kind = s.kind :=
  rfl

@[simp] theorem size_mapValues (s : KeyedSet) (f : Value → Value) :
    (s.mapValues f).size = s.size :=
  rfl

@[simp] theorem keys_mapValues (s : KeyedSet) (f : Value → Value) :
    (s.mapValues f).keys = s.keys :=
  rfl

@[simp] theorem position?_mapValues (s : KeyedSet) (f : Value → Value) (key : String) :
    (s.mapValues f).position? key = s.position? key :=
  rfl

@[simp] theorem values_mapValues (s : KeyedSet) (f : Value → Value) :
    (s.mapValues f).values = s.values.map fun value => (f value).normalized := by
  simp [mapValues, values]

@[simp] theorem kind_renamed (s : KeyedSet) (name : String) :
    (s.renamed name).kind = s.kind :=
  rfl

@[simp] theorem keys_renamed (s : KeyedSet) (name : String) :
    (s.renamed name).keys = s.keys :=
  rfl

@[simp] theorem get_renamed (s : KeyedSet) (name key : String) :
    (s.renamed name).get key = s.get key :=
  rfl

@[simp] theorem values_renamed (s : KeyedSet) (name : String) :
    (s.renamed name).values = s.values :=
  rfl

end KeyedSet

end Quantities
