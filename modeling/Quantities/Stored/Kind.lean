import Quantities.Kind
import Quantities.Stored.Record

/-!
# Stored kinds

A kind is stored as its word.
-/

namespace Quantities

namespace Kind

def toTree (kind : Kind) : JsonTree :=
  .string (some kind.tag)

/-- The kind that a tree stores: its word, or an object whose only key is the word, with null under it. -/
def ofTree? : JsonTree → Option Kind
  | .string (some word) => ofTag? word
  | .object [(some word, .null)] => ofTag? word
  | _ => none

def toText (kind : Kind) : String :=
  kind.toTree.text

def ofText (text : String) : Except Stored.ReadError Kind :=
  Stored.readWith (fun tree => Stored.ofOption (ofTree? tree)) text

theorem ofTree?_toTree (kind : Kind) :
    ofTree? kind.toTree = some kind :=
  ofTag?_tag kind

end Kind

end Quantities
