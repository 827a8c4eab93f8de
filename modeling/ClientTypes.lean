import ClientTypes.Main
import ClientTypes.Resolve.Session
import ClientTypes.Proofs.Descriptor.All
import ClientTypes.Proofs.Law
import ClientTypes.Proofs.Registry.Growth
import ClientTypes.Proofs.Resolve.Visits
import ClientTypes.Proofs.Resolve.Descent
import ClientTypes.Proofs.Resolve.Marks
import ClientTypes.Proofs.Resolve.Closed
import ClientTypes.Proofs.Pass.Steps
import ClientTypes.Proofs.Registry.Finalize
import ClientTypes.Proofs.Pass.References
import ClientTypes.Proofs.Reach
import ClientTypes.Proofs.Path
import ClientTypes.Proofs.Resolve.Within
import ClientTypes.Proofs.Pass.Reached
import ClientTypes.Proofs.Resolve.Aspect
import ClientTypes.Proofs.Resolve.Congruence
import ClientTypes.Proofs.Resolve.Origin
import ClientTypes.Proofs.Resolve.Steady
import ClientTypes.Proofs.Resolve.Provenance
import ClientTypes.Proofs.Resolve.Agreement
import ClientTypes.Proofs.Pass.Rest
import ClientTypes.Proofs.Pass.Covered
import ClientTypes.Proofs.Pass.Order
import ClientTypes.Proofs.Pass.Promotion
import ClientTypes.Proofs.Resolve.Exhaust
import ClientTypes.Proofs.Session
import ClientTypes.Proofs.Cycles
import ClientTypes.Proofs.Opacity
import ClientTypes.Proofs.Pass.Members
import ClientTypes.Proofs.Resolve.Anchor
import ClientTypes.Proofs.Resolve.Lasting
import ClientTypes.Proofs.Resolve.Repeat
import ClientTypes.Proofs.Resolve.Surface
import ClientTypes.Proofs.Idempotence
import ClientTypes.Proofs.Interim
import ClientTypes.Proofs.Pass.Imports
import ClientTypes.Proofs.Namespace.Aliases
import ClientTypes.Proofs.Registry.Rendering
import ClientTypes.Proofs.Pass.Substituted
import ClientTypes.Proofs.Pass.Policy
import ClientTypes.Proofs.Resolve.Coincide
import ClientTypes.Proofs.Resolve.Depth
import ClientTypes.Proofs.Pass.Unreached
import ClientTypes.Proofs.WellFormed
import ClientTypes.Proofs.Registry.Prevailing
import ClientTypes.Proofs.Registry.TypeIndex
import ClientTypes.Proofs.Registry.Naming
import ClientTypes.Proofs.Pass.Clash
import ClientTypes.Proofs.Pass.Indexed
import ClientTypes.Proofs.Resolve.Precedence
import ClientTypes.Proofs.CallSite
import ClientTypes.Proofs.Resolve.Methods
import ClientTypes.Proofs.Pass.Embedding
import ClientTypes.Proofs.Amid
import ClientTypes.Proofs.Quoted
import ClientTypes.Proofs.Tag
import ClientTypes.Proofs.Guess
import ClientTypes.Proofs.Namespace.Numbering
import ClientTypes.Proofs.ByName
import ClientTypes.Proofs.Exchange.Depth
import ClientTypes.Proofs.Exchange.Names
import ClientTypes.Proofs.Naming
import ClientTypes.Proofs.Descriptor.Alternative
import ClientTypes.Proofs.Text.PropertyKey
import ClientTypes.Proofs.Registry.Behind
