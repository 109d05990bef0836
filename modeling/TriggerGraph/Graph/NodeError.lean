import TriggerGraph.Operator.Wiring

/-!
# Faults of single nodes

A node can be misplaced in its graph or misconfigured by itself.  The parts of a
node's settings that do not depend on the rest of the graph are checked here.
-/

namespace TriggerGraph

/-- A fault in a node's place in the graph or in its settings. -/
inductive NodeError where
  | duplicateId (node : NodeId)
  | unknownInput (node input : NodeId)
  | invalidProviderPath (node : NodeId) (path : String) (fault : PathFault)
  | tooManyFinalInputs (node : NodeId) (count : Nat)
  | negativeTimeWindow (node : NodeId) (millis : Int64)
  | wiring (error : WiringError)
  | nodeCountMismatch (declared actual : Nat)
deriving DecidableEq

namespace NodeError

/-- The fault in words. -/
def message : NodeError → String
  | duplicateId node =>
    "Node " ++ toString node ++ " shares its id with another node in the graph"
  | unknownInput node input =>
    "Node " ++ toString node ++ " references input node " ++ toString input
      ++ ", which is not part of the graph"
  | invalidProviderPath node path fault =>
    "Provider node " ++ toString node ++ " has an invalid path '" ++ path ++ "': "
      ++ fault.message
  | tooManyFinalInputs node count =>
    "Final node " ++ toString node ++ " accepts at most one input, but " ++ toString count
      ++ " are connected"
  | negativeTimeWindow node millis =>
    "Change detection node " ++ toString node ++ " has a negative time window of "
      ++ toString millis.toInt ++ " ms"
  | wiring error => error.message
  | nodeCountMismatch declared actual =>
    "Graph declares " ++ toString declared ++ " nodes, but " ++ toString actual
      ++ " were compiled"

/-- The node at fault, if the fault concerns a single node. -/
def node? : NodeError → Option NodeId
  | duplicateId node => some node
  | unknownInput node _ => some node
  | invalidProviderPath node _ _ => some node
  | tooManyFinalInputs node _ => some node
  | negativeTimeWindow node _ => some node
  | wiring error => some error.node
  | nodeCountMismatch _ _ => none

end NodeError

namespace Node

/-- The fault in the settings of a node by itself. -/
def configurationFault? (node : Node) : Option NodeError :=
  match node.kind with
  | .provider path => match Path.checkProvider path with
    | .ok _ => none
    | .error fault => some (.invalidProviderPath node.id path fault)
  | .final =>
    if 1 < node.inputs.length then some (.tooManyFinalInputs node.id node.inputs.length)
    else none
  | .config detection =>
    if detection.windowMillis.toInt < 0 then
      some (.negativeTimeWindow node.id detection.windowMillis)
    else none
  | _ => none

end Node

end TriggerGraph
