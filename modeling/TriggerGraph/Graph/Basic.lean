import TriggerGraph.Definition
import TriggerGraph.Graph.Validation

/-!
# Graphs

A graph is a node list with an index of its identities, its inputs resolved to slots by
that index, and its topological order.  It is built from any list with distinct identities
in which all inputs are known; compiling a definition validates it first.

Main results:

- Theorem `nodes_of_build`: building keeps the nodes.
- Theorem `order_of_build`: the order of a graph is the order of its nodes.
-/

namespace TriggerGraph

/-- A node list ready for evaluation. -/
structure Graph where
  nodes : List Node
  /-- For every identity, the slot of its node. -/
  index : List (NodeId × Nat)
  /-- For every slot, the slots of its inputs in order. -/
  inputSlots : List (List Nat)
  order : TopologicalOrder

/-- Why a definition does not compile. -/
inductive CompileError where
  | definition (error : DefinitionError)
  | invalid (errors : List GraphError)
  | node (error : NodeError)

namespace CompileError

/-- The error in words; several faults are joined. -/
def message : CompileError → String
  | definition error => error.message
  | invalid errors =>
    "Graph failed validation: " ++ "; ".intercalate (errors.map GraphError.message)
  | node error => error.message

end CompileError

namespace Graph

/-! ## Building -/

/-- The slot that an index has for an identity. -/
def slotIn? (index : List (NodeId × Nat)) (id : NodeId) : Option Nat := index.lookup id

/-- The index with the nodes of a stretch of the list that begins at a slot, or the first
identity that is in it already. -/
def indexFrom (slot : Nat) (index : List (NodeId × Nat)) :
    List Node → Except NodeError (List (NodeId × Nat))
  | [] => .ok index
  | node :: rest =>
    match slotIn? index node.id with
    | some _ => .error (.duplicateId node.id)
    | none => indexFrom (slot + 1) ((node.id, slot) :: index) rest

/-- The slots of the inputs of a node, or the first input that names no node. -/
def resolveInputs (slotOf : NodeId → Option Nat) (node : NodeId) :
    List NodeId → Except NodeError (List Nat)
  | [] => .ok []
  | id :: rest =>
    match slotOf id with
    | none => .error (.unknownInput node id)
    | some slot => (resolveInputs slotOf node rest).map (slot :: ·)

/-- The slots of the inputs of every node of a stretch of the list. -/
def resolveAll (slotOf : NodeId → Option Nat) : List Node → Except NodeError (List (List Nat))
  | [] => .ok []
  | node :: rest =>
    match resolveInputs slotOf node.id node.inputs with
    | .error error => .error error
    | .ok slots => (resolveAll slotOf rest).map (slots :: ·)

/-- Builds a graph.  A repeated identity is reported before an unknown input.  A
graph with a cycle can be built; it is its evaluation that fails. -/
def build (nodes : List Node) : Except NodeError Graph :=
  match indexFrom 0 [] nodes with
  | .error error => .error error
  | .ok index => (resolveAll (slotIn? index) nodes).map fun inputSlots =>
    ⟨nodes, index, inputSlots, TopologicalOrder.ofNodes nodes⟩

/-- Validates a definition and builds its graph. -/
def compile [SchemaEngine] (definition : GraphDefinition) : Except CompileError Graph :=
  match Validation.validate definition.nodes definition.declaredCount with
  | [] => match build definition.nodes with
    | .ok graph => .ok graph
    | .error error => .error (.node error)
  | errors => .error (.invalid errors)

/-- Validates a bare node list and builds its graph. -/
def compileNodes [SchemaEngine] (nodes : List Node) : Except CompileError Graph :=
  compile (GraphDefinition.ofNodes nodes)

/-! ## Views -/

/-- The number of nodes. -/
def size (graph : Graph) : Nat := graph.nodes.length

/-- Whether there are no nodes. -/
def isEmpty (graph : Graph) : Bool := graph.nodes.isEmpty

/-- The slot of an identity. -/
def slot? (graph : Graph) (id : NodeId) : Option Nat := slotIn? graph.index id

/-- The node of an identity. -/
def node? (graph : Graph) (id : NodeId) : Option Node :=
  (graph.slot? id).bind fun slot => graph.nodes[slot]?

/-- The slots of the inputs of the node at a slot. -/
def inputsAt (graph : Graph) (slot : Nat) : List Nat := graph.inputSlots.getD slot []

/-- The slot of the first final node. -/
def finalSlot? (graph : Graph) : Option Nat := graph.nodes.findIdx? Node.isFinal

/-! ## What building yields -/

theorem build_eq_ok {nodes : List Node} {graph : Graph} (h : build nodes = .ok graph) :
    ∃ index inputSlots, indexFrom 0 [] nodes = .ok index ∧
      resolveAll (slotIn? index) nodes = .ok inputSlots ∧
      graph = ⟨nodes, index, inputSlots, TopologicalOrder.ofNodes nodes⟩ := by
  unfold build at h
  cases hindex : indexFrom 0 [] nodes with
  | error error =>
      rw [hindex] at h
      cases h
  | ok index =>
      rw [hindex] at h
      dsimp only at h
      cases hslots : resolveAll (slotIn? index) nodes with
      | error error =>
          rw [hslots] at h
          cases h
      | ok inputSlots =>
          rw [hslots] at h
          cases h
          exact ⟨index, inputSlots, rfl, hslots, rfl⟩

/-- Building keeps the nodes. -/
theorem nodes_of_build {nodes : List Node} {graph : Graph} (h : build nodes = .ok graph) :
    graph.nodes = nodes := by
  obtain ⟨index, inputSlots, -, -, rfl⟩ := build_eq_ok h
  rfl

/-- The order of a graph is the order of its nodes. -/
theorem order_of_build {nodes : List Node} {graph : Graph} (h : build nodes = .ok graph) :
    graph.order = TopologicalOrder.ofNodes nodes := by
  obtain ⟨index, inputSlots, -, -, rfl⟩ := build_eq_ok h
  rfl

end Graph

end TriggerGraph
