import Quantities.Stored.Record
import Quantities.Value

/-!
# Stored values

An undefined value is stored as null and a defined one as its number.
-/

namespace Quantities

namespace Value

/-- The stored form of a value; NaN and the infinities are stored like undefined. -/
def toTree : Value → JsonTree
  | .defined x => .ofFloat x
  | .undefined => .null

def ofTree? : JsonTree → Option Value
  | .null => some .undefined
  | tree => tree.float?.map ofFloat

def toText (value : Value) : String :=
  value.toTree.text

def ofText (text : String) : Except Stored.ReadError Value :=
  Stored.readWith (fun tree => Stored.ofOption (ofTree? tree)) text

def listToText (values : List Value) : String :=
  (JsonTree.array (values.map toTree)).text

def listOfText (text : String) : Except Stored.ReadError (List Value) :=
  Stored.readWith (fun tree => Stored.ofOption (tree.items?.bind (·.mapM ofTree?))) text

end Value

end Quantities
