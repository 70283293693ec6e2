/-!
# Kinds of sets

What kind of entity the keys of a set name.
-/

namespace Quantities

/-- The entities that a set can be keyed by. -/
inductive Kind where
  | scalar
  | field
  | group
  | well
  | connection
  | segment
  | region
  | aquifer
  | block
deriving DecidableEq, Repr

namespace Kind

/-- Scalar-typed sets hold a single value, which broadcasts over keyed sets. -/
def isScalar : Kind → Bool
  | .scalar | .field => true
  | _ => false

def all : List Kind :=
  [.scalar, .field, .group, .well, .connection, .segment, .region, .aquifer, .block]

def label : Kind → String
  | .scalar => "SCALAR"
  | .field => "FIELD"
  | .group => "GROUP"
  | .well => "WELL"
  | .connection => "CONNECTION"
  | .segment => "SEGMENT"
  | .region => "REGION"
  | .aquifer => "AQUIFER"
  | .block => "BLOCK"

def tag : Kind → String
  | .scalar => "Scalar"
  | .field => "Field"
  | .group => "Group"
  | .well => "Well"
  | .connection => "Connection"
  | .segment => "Segment"
  | .region => "Region"
  | .aquifer => "Aquifer"
  | .block => "Block"

def ofTag? (word : String) : Option Kind :=
  all.find? fun kind => kind.tag = word

theorem ofTag?_tag (kind : Kind) :
    ofTag? kind.tag = some kind := by
  cases kind <;> decide

end Kind

end Quantities
