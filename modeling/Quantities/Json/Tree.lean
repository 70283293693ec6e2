import Quantities.Decimal.Basic

/-!
# JSON values

The tree of a JSON text.  Numbers keep what the text says, so that a reader of the tree can tell an
integer from a real number and refuses an overflow only where a number is wanted.
-/

namespace Quantities

inductive JsonTree where
  | null
  | bool (flag : Bool)
  /-- A number without fraction and exponent. -/
  | integer (negative : Bool) (magnitude : Nat)
  /-- A number with a fraction or an exponent; its trailing zeros are dropped. -/
  | real (negative : Bool) (magnitude : Decimal)
  /-- A string, or no text at all for one that escapes half of a surrogate pair. -/
  | string (text : Option String)
  | array (items : List JsonTree)
  | object (members : List (Option String × JsonTree))

namespace JsonTree

def signed (negative : Bool) (x : Float) : Float :=
  if negative then -x else x

/-- The double nearest to a number; none when it overflows and for anything but a number. -/
def float? : JsonTree → Option Float
  | .integer negative n =>
      let x := (Decimal.mk n 0).toFloat
      if x.isFinite then some (signed negative x) else none
  | .real negative d =>
      let x := d.toFloat
      if x.isFinite then some (signed negative x) else none
  | _ => none

def word? : JsonTree → Option UInt64
  | .integer false n => if n < UInt64.size then some (.ofNat n) else none
  | _ => none

def flag? : JsonTree → Option Bool
  | .bool flag => some flag
  | _ => none

def text? : JsonTree → Option String
  | .string text => text
  | _ => none

def items? : JsonTree → Option (List JsonTree)
  | .array items => some items
  | _ => none

end JsonTree

end Quantities
