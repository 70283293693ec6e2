import Quantities.Proofs.Expression.Locality
import Quantities.Proofs.Generator.History
import Quantities.Proofs.KeyedSet.Congruence
import Quantities.Proofs.Operator.Exchange
import Quantities.Proofs.Operator.Tolerance
import Quantities.Proofs.Registry.WriteOnce
import Quantities.Proofs.Stored.KeyedSet
import Quantities.Proofs.Stored.Settings
import Quantities.Proofs.KeyedSet.Writes
import Quantities.Proofs.KeyedSet.Acceptance
import Quantities.Proofs.Reduction.Extrema
import Quantities.Proofs.Registry.Loading
import Quantities.Proofs.Binary64.Division
import Quantities.Proofs.Binary64.Elementary
import Quantities.Proofs.Generator.Draws
import Quantities.Proofs.Registry.Flags
import Quantities.Proofs.Settings.Range
import Quantities.Proofs.Transform.Definedness
import Quantities.Proofs.KeyedSet.ScalarKey
import Quantities.Proofs.Reduction.HarmonicMean
import Quantities.Proofs.Reduction.Norms
import Quantities.Proofs.Stored.Defaults
import Quantities.Proofs.Generator.StepSeed
import Quantities.Proofs.KeyedSet.Union
