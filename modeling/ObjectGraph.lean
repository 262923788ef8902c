import ObjectGraph.Config.File
import ObjectGraph.Key.Json
import ObjectGraph.Record.Json
import ObjectGraph.Session.Removal
import ObjectGraph.Version
import ObjectGraph.Proofs.Inheritance
import ObjectGraph.Proofs.FirstDefect
import ObjectGraph.Proofs.PurgeStep
import ObjectGraph.Proofs.Shrinking
import ObjectGraph.Proofs.World
import ObjectGraph.Proofs.Effect
import ObjectGraph.Proofs.Index
import ObjectGraph.Proofs.IndexCoherence
import ObjectGraph.Proofs.Backing
import ObjectGraph.Proofs.Discipline
import ObjectGraph.Proofs.Without
import ObjectGraph.Proofs.Cascade
import ObjectGraph.Proofs.PurgeSoundness
import ObjectGraph.Proofs.ContentBytes
import ObjectGraph.Proofs.ContentEquality
import ObjectGraph.Proofs.Agreement
import ObjectGraph.Proofs.Successive
import ObjectGraph.Proofs.Component
import ObjectGraph.Proofs.Snapshots
import ObjectGraph.Proofs.TypeRemoval
import ObjectGraph.Proofs.KeyLog
import ObjectGraph.Proofs.Replacement
import ObjectGraph.Proofs.Dependents
import ObjectGraph.Proofs.Detachment
import ObjectGraph.Proofs.StandIn
import ObjectGraph.Proofs.Hierarchy
import ObjectGraph.Proofs.Enumeration
import ObjectGraph.Proofs.Neighbourhood
import ObjectGraph.Proofs.PartialRemoval
import ObjectGraph.Proofs.NearestIndex
import ObjectGraph.Proofs.DeclarationOrder
import ObjectGraph.Proofs.PurgeBound
import ObjectGraph.Proofs.LabelMemory
import ObjectGraph.Proofs.JsonRoundTrip
import ObjectGraph.Proofs.JsonTokens
import ObjectGraph.Proofs.JsonTrees
import ObjectGraph.Proofs.JsonForms
