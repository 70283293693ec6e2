import Quantities.Settings
import Quantities.Stored.Record

/-!
# Stored settings

Settings are stored as a record.  Fields that a stored record leaves out take their defaults.
-/

namespace Quantities

namespace Settings

def storedFields : List String :=
  ["reseed", "random_seed", "range", "undefined_value", "cmp_epsilon"]

def toTree (settings : Settings) : JsonTree :=
  .object [
    (some "reseed", .bool settings.reseed),
    (some "random_seed", .integer false settings.randomSeed.toNat),
    (some "range", .ofFloat settings.range),
    (some "undefined_value", .ofFloat settings.undefinedValue),
    (some "cmp_epsilon", .ofFloat settings.cmpEpsilon)]

def ofTree? (tree : JsonTree) : Option Settings := do
  let default : Settings := {}
  let found ← Stored.fieldsOf? storedFields tree
  let reseed ← Stored.optional JsonTree.flag? found "reseed" default.reseed
  let randomSeed ← Stored.optional JsonTree.word? found "random_seed" default.randomSeed
  let range ← Stored.optional JsonTree.float? found "range" default.range
  let undefinedValue ←
    Stored.optional JsonTree.float? found "undefined_value" default.undefinedValue
  let cmpEpsilon ← Stored.optional JsonTree.float? found "cmp_epsilon" default.cmpEpsilon
  return { reseed, randomSeed, range, undefinedValue, cmpEpsilon }

def toText (settings : Settings) : String :=
  settings.toTree.text

def ofText (text : String) : Except Stored.ReadError Settings :=
  Stored.readWith (fun tree => Stored.ofOption (ofTree? tree)) text

end Settings

end Quantities
