import TriggerGraph.Graph.NodeError

/-!
# Failures of a pass

A pass fails on one node, or because of the shape of its graph.  Each cause has a
coarse kind, by which callers tell missing data from wrong data and from a broken
graph.

Main results:

- Definitions `EvaluationError.kind` and `EvaluationError.message`: how a failure is
  classed and told.
-/

namespace TriggerGraph

/-- Coarse kinds of failure. -/
inductive FailureKind where
  | dataNotFound
  | typeMismatch
  | executionFailed
deriving DecidableEq

namespace FailureKind

/-- The name in messages. -/
def title : FailureKind → String
  | dataNotFound => "DataNotFound"
  | typeMismatch => "TypeMismatch"
  | executionFailed => "ExecutionFailed"

/-- The name in stored form. -/
def wireName : FailureKind → String
  | dataNotFound => "DATA_NOT_FOUND"
  | typeMismatch => "TYPE_MISMATCH"
  | executionFailed => "EXECUTION_FAILED"

end FailureKind

/-- Why a pass failed. -/
inductive EvaluationError where
  | sourceMissing (node : NodeId)
  | sourceNotObject (node : NodeId) (source : Document)
  | schemaNotString (node : NodeId) (found : Option ValueType)
  | verdictNotBoolean (node : NodeId) (found : Option ValueType)
  | schemaUnusable (node : NodeId) (error : SchemaError)
  | inputNotProvider (node : NodeId)
  | graphNotBuilt (error : NodeError)
  | verdictLost (node : NodeId)
  | cycle (nodes : List NodeId)
  | missingFinalNode

namespace EvaluationError

/-- What a source document is, in words. -/
def sourceKind : Document → String
  | .null => "null"
  | .bool _ => "a boolean"
  | .number _ => "a number"
  | .string _ => "a string"
  | .array _ => "an array"
  | .object _ => "an object"

/-- The coarse kind of a failure. -/
def kind : EvaluationError → FailureKind
  | sourceMissing _ => .dataNotFound
  | sourceNotObject _ _ => .typeMismatch
  | schemaNotString _ _ => .typeMismatch
  | verdictNotBoolean _ _ => .typeMismatch
  | verdictLost _ => .typeMismatch
  | schemaUnusable _ _ => .executionFailed
  | inputNotProvider _ => .executionFailed
  | graphNotBuilt _ => .executionFailed
  | cycle _ => .executionFailed
  | missingFinalNode => .executionFailed

/-- The node that failed, if one did.  A graph that could not be built for a reason
that concerns no single node is put down to node zero. -/
def node? : EvaluationError → Option NodeId
  | sourceMissing node => some node
  | sourceNotObject node _ => some node
  | schemaNotString node _ => some node
  | verdictNotBoolean node _ => some node
  | verdictLost node => some node
  | schemaUnusable node _ => some node
  | inputNotProvider node => some node
  | graphNotBuilt error => some (error.node?.getD 0)
  | cycle _ => none
  | missingFinalNode => none

/-- A mismatch on a node. -/
def mismatch (node : NodeId) (expected found : String) : String :=
  "Type mismatch on node " ++ toString node ++ ": expected " ++ expected ++ ", but found "
    ++ found

/-- A type that was found, or nothing. -/
def foundTitle (found : Option ValueType) : String :=
  match found with
  | some t => t.title
  | none => "nothing"

/-- A failed execution on a node. -/
def failed (node : NodeId) (reason : String) : String :=
  "Execution failed on node " ++ toString node ++ ": " ++ reason

/-- The failure in words. -/
def message (error : EvaluationError) : String :=
  match error with
  | sourceMissing node =>
    "Node " ++ toString node ++ " needs 'source', which is not present in the data context"
  | sourceNotObject node source =>
    mismatch node "a JSON object under 'source'" (sourceKind source)
  | schemaNotString node found => mismatch node "a JSON schema string" (foundTitle found)
  | verdictNotBoolean node found => mismatch node "a boolean verdict" (foundTitle found)
  | verdictLost node => mismatch node "a boolean verdict" "nothing"
  | schemaUnusable node error => failed node error.message
  | inputNotProvider node => failed node "existence checks need a provider input"
  | graphNotBuilt error => failed (error.node?.getD 0) error.message
  | cycle nodes =>
    "Graph cannot be evaluated, it contains a cycle through nodes [" ++ Node.idList nodes ++ "]"
  | missingFinalNode => "Graph cannot be evaluated, it has no final node"

end EvaluationError

end TriggerGraph
