import TriggerGraph.Node

/-!
# Graph definitions

A definition is a node list as it is stored for one version of a graph, with a name
and, if it was recorded, the number of nodes it had when it was stored.

Main results:

- Theorem `declaredCount_ofNodes`: a definition made of nodes declares as many.
-/

namespace TriggerGraph

/-- A stored node list. -/
structure GraphDefinition where
  name : String
  nodeCount : Option UInt64
  nodes : List Node

/-- Why a stored definition cannot be loaded. -/
inductive DefinitionError where
  | unreadable
  | noNodes
deriving DecidableEq

namespace DefinitionError

/-- The error in words. -/
def message : DefinitionError → String
  | unreadable => "Failed to parse graph definition JSON"
  | noNodes => "Invalid graph definition: graph definition contains no nodes"

end DefinitionError

namespace GraphDefinition

/-- The definition of a bare node list. -/
def ofNodes (nodes : List Node) : GraphDefinition := ⟨"", none, nodes⟩

/-- The definition under another name. -/
def named (definition : GraphDefinition) (name : String) : GraphDefinition :=
  { definition with name := name }

/-- The definition with a recorded number of nodes. -/
def withNodeCount (definition : GraphDefinition) (count : UInt64) : GraphDefinition :=
  { definition with nodeCount := some count }

/-- The number of nodes that the definition claims to have. -/
def declaredCount (definition : GraphDefinition) : Nat :=
  match definition.nodeCount with
  | some count => count.toNat
  | none => definition.nodes.length

@[simp] theorem declaredCount_ofNodes (nodes : List Node) :
    (ofNodes nodes).declaredCount = nodes.length :=
  rfl

end GraphDefinition

end TriggerGraph
