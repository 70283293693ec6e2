import Quantities.Json.Reader
import Quantities.Json.Writer
import Quantities.SetupError

/-!
# Stored texts

How a value is read from a whole JSON text, and how the fields of a record are found in an object or in
an array.
-/

namespace Quantities

namespace Stored

inductive ReadError where
  /-- The text is not JSON, or not of the expected form. -/
  | malformed
  /-- The text has the expected form and asks for something that cannot be built. -/
  | setup (error : SetupError)
deriving DecidableEq, Repr

/-- A decoder's answer: nothing where the tree does not have the expected form. -/
def ofOption {α : Type} : Option α → Except ReadError α
  | some value => .ok value
  | none => .error .malformed

/--
Decodes a text that holds one JSON value.  The value is decoded before what follows it is looked at,
where only blanks are allowed.
-/
def readWith {α : Type} (decode : JsonTree → Except ReadError α) (text : String) :
    Except ReadError α :=
  match JsonReader.read text.toList with
  | none => .error .malformed
  | some (tree, rest) =>
      match decode tree with
      | .error e => .error e
      | .ok value =>
          if (JsonReader.skipSpace rest).isEmpty then .ok value else .error .malformed

/--
The members of an object whose keys are fields of a record.  Other members are passed over; a key that
is no text and a repeated field are refused.
-/
def knownMembers (fields : List String) :
    List (Option String × JsonTree) → Option (List (String × JsonTree))
  | [] => some []
  | (none, _) :: _ => none
  | (some key, value) :: rest =>
      match knownMembers fields rest with
      | none => none
      | some found =>
          if !fields.contains key then
            some found
          else if found.any fun member => member.1 = key then
            none
          else
            some ((key, value) :: found)

/--
The fields of a record that a tree gives.  An object names them, in any order and among other members;
an array lists their values in order and may stop early.
-/
def fieldsOf? (fields : List String) : JsonTree → Option (List (String × JsonTree))
  | .object members => knownMembers fields members
  | .array items => if items.length ≤ fields.length then some (fields.zip items) else none
  | _ => none

def required {α : Type} (decode : JsonTree → Option α) (found : List (String × JsonTree))
    (field : String) : Option α :=
  (found.lookup field).bind decode

def optional {α : Type} (decode : JsonTree → Option α) (found : List (String × JsonTree))
    (field : String) (default : α) : Option α :=
  match found.lookup field with
  | some tree => decode tree
  | none => some default

end Stored

end Quantities
