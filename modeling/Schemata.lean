import Schemata.Json.Reading
import Schemata.Main
import Schemata.Proofs.AccessorNames
import Schemata.Proofs.AnnotationValues
import Schemata.Proofs.AttributeResolution
import Schemata.Proofs.ByReference
import Schemata.Proofs.CachedLoading
import Schemata.Proofs.CanonicalNames
import Schemata.Proofs.Closure
import Schemata.Proofs.CollectedMetadata
import Schemata.Proofs.ConfigurationFaults
import Schemata.Proofs.Copies
import Schemata.Proofs.Cuts
import Schemata.Proofs.Declared
import Schemata.Proofs.DecliningProcessors
import Schemata.Proofs.Defaults
import Schemata.Proofs.Dereference
import Schemata.Proofs.Discovery
import Schemata.Proofs.DistinctNames
import Schemata.Proofs.Entries
import Schemata.Proofs.EnumSchemas
import Schemata.Proofs.Enumerations
import Schemata.Proofs.Evaluation
import Schemata.Proofs.Expansion
import Schemata.Proofs.Extraction
import Schemata.Proofs.FileEffects
import Schemata.Proofs.Flags
import Schemata.Proofs.Freestanding
import Schemata.Proofs.Grounding
import Schemata.Proofs.Handlers
import Schemata.Proofs.Handles
import Schemata.Proofs.Identity
import Schemata.Proofs.Indentation
import Schemata.Proofs.InheritedMembers
import Schemata.Proofs.Inlining
import Schemata.Proofs.Interchange
import Schemata.Proofs.JsonGrammar
import Schemata.Proofs.JsonRoundTrip
import Schemata.Proofs.JsonSchemas
import Schemata.Proofs.JsonTrees
import Schemata.Proofs.Keys
import Schemata.Proofs.Likeness
import Schemata.Proofs.LineEnds
import Schemata.Proofs.Locality
import Schemata.Proofs.LogOverrides
import Schemata.Proofs.MemberSources
import Schemata.Proofs.MembersAlike
import Schemata.Proofs.Memberwise
import Schemata.Proofs.MergedLast
import Schemata.Proofs.Naming
import Schemata.Proofs.NearestHints
import Schemata.Proofs.ObjectSchemas
import Schemata.Proofs.Outcome
import Schemata.Proofs.Overrides
import Schemata.Proofs.Paths
import Schemata.Proofs.Plan
import Schemata.Proofs.Positions
import Schemata.Proofs.Preparation
import Schemata.Proofs.PrivateNames
import Schemata.Proofs.ProperHints
import Schemata.Proofs.ProperHosts
import Schemata.Proofs.ProperTables
import Schemata.Proofs.Reach
import Schemata.Proofs.Reconfiguration
import Schemata.Proofs.RecordFields
import Schemata.Proofs.References
import Schemata.Proofs.Reloading
import Schemata.Proofs.Requirements
import Schemata.Proofs.Resolution
import Schemata.Proofs.Resolvable
import Schemata.Proofs.Runs
import Schemata.Proofs.SameTypes
import Schemata.Proofs.Sources
import Schemata.Proofs.Step
import Schemata.Proofs.Substitution
import Schemata.Proofs.Termination
import Schemata.Proofs.Variables
import Schemata.Proofs.WellShaped
import Schemata.TypeGraph
