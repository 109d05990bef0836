import TriggerGraph.Main
import TriggerGraph.Proofs.Change.Detection
import TriggerGraph.Proofs.Evaluation.Declared
import TriggerGraph.Proofs.Evaluation.History
import TriggerGraph.Proofs.Evaluation.Influence
import TriggerGraph.Proofs.Evaluation.Permutation
import TriggerGraph.Proofs.Evaluation.Repeating
import TriggerGraph.Proofs.Evaluation.Safety
import TriggerGraph.Proofs.Evaluation.Sessions
import TriggerGraph.Proofs.Graph.Publishable
import TriggerGraph.Proofs.Number.Decimals
import TriggerGraph.Proofs.Operator.Comparison
import TriggerGraph.Proofs.Operator.Membership
import TriggerGraph.Proofs.Json.Literal
import TriggerGraph.Proofs.Document.Tree
import TriggerGraph.Proofs.Document.Text
import TriggerGraph.Proofs.Stored.Fields
import TriggerGraph.Proofs.Stored.Context
import TriggerGraph.Proofs.Stored.Node
import TriggerGraph.Proofs.Stored.Reencoding
import TriggerGraph.Proofs.Evaluation.Persisting
import TriggerGraph.Proofs.Graph.Faults
import TriggerGraph.Proofs.Evaluation.Naming
import TriggerGraph.Proofs.CommandLine.Spelling
import TriggerGraph.Proofs.CommandLine.Decision
import TriggerGraph.Proofs.Change.Policies
import TriggerGraph.Proofs.Value.LooseEquality
import TriggerGraph.Proofs.Operator.Extremes
import TriggerGraph.Proofs.Graph.Depth
import TriggerGraph.Proofs.Evaluation.Blame
import TriggerGraph.Proofs.Graph.Removal
import TriggerGraph.Proofs.Evaluation.Providing
import TriggerGraph.Proofs.Schema.Capacity
import TriggerGraph.Proofs.Operator.Opposites
import TriggerGraph.Proofs.Evaluation.Existence
import TriggerGraph.Proofs.CommandLine.Writing
import TriggerGraph.Proofs.Graph.Freeing
import TriggerGraph.Proofs.Graph.Arena
