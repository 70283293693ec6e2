import Quantities.Family
import Quantities.Kind

/-!
# Setup errors

What can go wrong while sets, settings and function tables are built.  Evaluation has no errors:
missing data and domain violations are undefined values.
-/

namespace Quantities

/-- Why a set, a settings record or a function could not be set up. -/
inductive SetupError where
  /-- A function of that name is already registered in the family. -/
  | duplicateFunction (family : Family) (name : String)
  /-- Function names are neither empty nor contain white space. -/
  | invalidName (name : String)
  /-- A set was given the same key twice. -/
  | duplicateKey (set key : String)
  /-- A scalar or field set was given a number of entries other than one. -/
  | scalarShape (set : String) (kind : Kind) (size : Nat)
  /-- A set has no entry under the key. -/
  | unknownKey (set key : String)
  /-- A setting lies outside its domain. -/
  | invalidParameter (parameter reason : String)
deriving DecidableEq, Repr

namespace SetupError

def message : SetupError → String
  | .duplicateFunction family name =>
      family.label ++ " function '" ++ name ++ "' is already registered"
  | .invalidName name => "invalid function name '" ++ name ++ "'"
  | .duplicateKey set key => "key '" ++ key ++ "' appears more than once in set '" ++ set ++ "'"
  | .scalarShape set kind size =>
      kind.label ++ " set '" ++ set ++ "' must hold exactly one entry, got " ++ toString size
  | .unknownKey set key => "set '" ++ set ++ "' has no entry for key '" ++ key ++ "'"
  | .invalidParameter parameter reason => "invalid UDQ parameter " ++ parameter ++ ": " ++ reason

end SetupError

end Quantities
