import TriggerGraph.Graph.NodeError
import TriggerGraph.Graph.Order

/-!
# Validation of a node list

Before a graph is published, all its faults are reported.  A cycle is reported
alone, since nothing else can be said of a cyclic graph; otherwise the reports on
the final node, on change detection, on the single nodes and on the declared number
of nodes follow one another.

Main results:

- Theorem `validate_of_cycle`: a cycle is the only report.
- Theorem `configFaults_eq_nil_iff`: change detection is missing exactly when no
  node detects changes.
-/

namespace TriggerGraph

/-- A fault in the structure of a graph. -/
inductive GraphError where
  | cycle (nodes : List NodeId)
  | finalCount (finals : List NodeId)
  | finalInput (final input : NodeId) (found : ValueType)
  | noDetection
  | node (error : NodeError)
deriving DecidableEq

namespace GraphError

/-- The fault in words. -/
def message : GraphError → String
  | cycle nodes => "Graph contains a cycle through nodes [" ++ Node.idList nodes ++ "]"
  | finalCount finals =>
    "Final node error: expected exactly one final node, found " ++ toString finals.length
  | finalInput final input found =>
    "Final node error: final node " ++ toString final
      ++ " must be fed by a boolean node, but node " ++ toString input ++ " produces "
      ++ found.title
  | noDetection => "Config node error: graph needs at least one change detection node"
  | node error => error.message

end GraphError

namespace Validation

/-- The last node with an identity. -/
def lastById? (nodes : List Node) (id : NodeId) : Option Node :=
  nodes.reverse.find? fun node => node.id = id

/-! ## Final nodes and change detection -/

/-- The fault in what feeds a final node. -/
def finalInputFault? (nodes : List Node) (final : Node) : Option GraphError :=
  match final.inputs.head?.bind (lastById? nodes) with
  | none => none
  | some input =>
    if input.outputType = .boolean then none
    else some (.finalInput final.id input.id input.outputType)

/-- The faults of the final nodes: there is exactly one, and what feeds it is boolean. -/
def finalFaults (nodes : List Node) : List GraphError :=
  let finals := nodes.filter Node.isFinal
  (if finals.length = 1 then [] else [.finalCount (finals.map (·.id))])
    ++ finals.filterMap (finalInputFault? nodes)

/-- The fault of a graph without change detection. -/
def configFaults (nodes : List Node) : List GraphError :=
  if nodes.any Node.isConfig then [] else [.noDetection]

/-- Change detection is missing exactly when no node detects changes. -/
theorem configFaults_eq_nil_iff (nodes : List Node) :
    configFaults nodes = [] ↔ ∃ node ∈ nodes, node.isConfig = true := by
  simp [configFaults]

/-! ## Single nodes -/

/-- The inputs of a node that name no node. -/
def unknownInputs (nodes : List Node) (node : Node) : List NodeError :=
  (node.inputs.filter fun id => (lastById? nodes id).isNone).map (.unknownInput node.id)

variable [SchemaEngine]

/-- The fault in the wiring of a logic node whose inputs are all known. -/
def wiringFault? (nodes : List Node) (node : Node) : Option NodeError :=
  match node.kind with
  | .logic operator =>
    let inputs := node.inputs.filterMap (lastById? nodes)
    if inputs.length = node.inputs.length then
      match operator.checkWiring node.id inputs with
      | .ok _ => none
      | .error error => some (.wiring error)
    else none
  | _ => none

/-- The faults of one node, where `seen` are the identities before it. -/
def faultsOf (nodes : List Node) (seen : List NodeId) (node : Node) : List NodeError :=
  (if seen.contains node.id then [.duplicateId node.id] else [])
    ++ unknownInputs nodes node
    ++ node.configurationFault?.toList
    ++ (wiringFault? nodes node).toList

/-- The faults of the nodes of a stretch of the list, where `seen` are the identities
before it. -/
def nodeFaultsFrom (nodes : List Node) : List NodeId → List Node → List NodeError
  | _, [] => []
  | seen, node :: rest =>
    faultsOf nodes seen node ++ nodeFaultsFrom nodes (node.id :: seen) rest

/-- The faults of all nodes, in their order. -/
def nodeFaults (nodes : List Node) : List NodeError := nodeFaultsFrom nodes [] nodes

/-- The fault of a list that is not as long as declared. -/
def countFaults (nodes : List Node) (declared : Nat) : List NodeError :=
  if declared = nodes.length then [] else [.nodeCountMismatch declared nodes.length]

/-! ## All faults -/

/-- All faults of a node list; none means that the graph can be published. -/
def validate (nodes : List Node) (declared : Nat) : List GraphError :=
  let order := TopologicalOrder.ofNodes nodes
  if order.hasCycle then [.cycle order.cycleIds]
  else
    finalFaults nodes ++ configFaults nodes
      ++ (nodeFaults nodes ++ countFaults nodes declared).map .node

/-- A cycle is the only report. -/
theorem validate_of_cycle {nodes : List Node}
    (h : (TopologicalOrder.ofNodes nodes).hasCycle = true) (declared : Nat) :
    validate nodes declared = [.cycle (TopologicalOrder.ofNodes nodes).cycleIds] := by
  simp [validate, h]

end Validation

end TriggerGraph
