import Quantities.KeyedSet.Basic
import Quantities.Stored.Kind
import Quantities.Stored.Value

/-!
# Stored sets

A set is stored as a record of its name, its kind and the list of its entries.  It is built again from
these, so that a stored set is refused exactly when its entries are.
-/

namespace Quantities

namespace KeyedSet

def entryTree (entry : String × Value) : JsonTree :=
  .array [.string (some entry.1), entry.2.toTree]

def entryOfTree? : JsonTree → Option (String × Value)
  | .array [key, value] => do
      let key ← key.text?
      let value ← Value.ofTree? value
      return (key, value)
  | _ => none

def storedFields : List String :=
  ["name", "var_type", "entries"]

def toTree (s : KeyedSet) : JsonTree :=
  .object [
    (some "name", .string (some s.name)),
    (some "var_type", s.kind.toTree),
    (some "entries", .array (s.entries.toList.map entryTree))]

def partsOfTree? (tree : JsonTree) : Option (String × Kind × List (String × Value)) := do
  let found ← Stored.fieldsOf? storedFields tree
  let name ← Stored.required JsonTree.text? found "name"
  let kind ← Stored.required Kind.ofTree? found "var_type"
  let items ← Stored.required JsonTree.items? found "entries"
  let entries ← items.mapM entryOfTree?
  return (name, kind, entries)

def ofTree (tree : JsonTree) : Except Stored.ReadError KeyedSet :=
  match partsOfTree? tree with
  | none => .error .malformed
  | some (name, kind, entries) =>
      match ofEntries name kind entries with
      | .ok s => .ok s
      | .error e => .error (.setup e)

def toText (s : KeyedSet) : String :=
  s.toTree.text

def ofText (text : String) : Except Stored.ReadError KeyedSet :=
  Stored.readWith ofTree text

end KeyedSet

end Quantities
