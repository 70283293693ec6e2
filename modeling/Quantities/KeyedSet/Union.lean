import Quantities.KeyedSet.Basic

/-!
# Union of keys

The set over the keys of two sets, from which the pairing of keyed sets starts.
-/

namespace Quantities

namespace KeyedSet

def missingKeys (s other : KeyedSet) : List String :=
  other.keys.filter fun key => !s.contains key

/--
The undefined set with the name and the kind of the first set, over its keys followed by the keys that
only the second set holds.
-/
def keyUnion (s other : KeyedSet) : KeyedSet :=
  (s.missingKeys other).foldl (fun union key => union.push key .undefined)
    (s.mapValues fun _ => .undefined)

theorem keyUnion_eq_extend (s other : KeyedSet) :
    s.keyUnion other = (s.mapValues fun _ => .undefined).extend
      ((s.missingKeys other).map fun key => (key, .undefined)) := by
  rw [keyUnion, extend, List.foldl_map]

@[simp] theorem name_keyUnion (s other : KeyedSet) :
    (s.keyUnion other).name = s.name := by
  simp [keyUnion_eq_extend]

@[simp] theorem kind_keyUnion (s other : KeyedSet) :
    (s.keyUnion other).kind = s.kind := by
  simp [keyUnion_eq_extend]

@[simp] theorem keys_keyUnion (s other : KeyedSet) :
    (s.keyUnion other).keys = s.keys ++ s.missingKeys other := by
  simp [keyUnion_eq_extend, Function.comp_def]

end KeyedSet

end Quantities
