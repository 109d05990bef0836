import TriggerGraph.Proofs.Graph.Building
import TriggerGraph.Proofs.Node.Settings

/-!
# Graphs under other settings

Slots, input slots and the order of a graph come from the identities and the inputs of its
nodes alone.  So a list whose nodes get other settings is built to the same graph up to these
settings.

Main results:

- Theorem `TopologicalOrder.ofNodes_map`: the order depends on identities and inputs alone.
- Theorem `Graph.build_retuned`: other settings leave the rest of a graph as it is.
-/

namespace TriggerGraph

variable {nodes : List Node} {f : Node → Node}

/-! ## The same identities and inputs -/

namespace Wiring

/-- Slots are found by identity alone. -/
theorem slotOf?_map (hid : ∀ node, (f node).id = node.id) (id : NodeId) :
    slotOf? (nodes.map f) id = slotOf? nodes id := by
  induction nodes with
  | nil => rfl
  | cons head rest ih => rw [List.map_cons, slotOf?, slotOf?, hid, ih]

/-- The wiring depends on identities and inputs alone. -/
theorem resolved_map (hid : ∀ node, (f node).id = node.id)
    (hinputs : ∀ node, (f node).inputs = node.inputs) :
    resolved (nodes.map f) = resolved nodes := by
  unfold resolved inputSlots
  rw [List.map_map]
  refine List.map_congr_left fun node _ => ?_
  rw [Function.comp_apply, hinputs, funext (slotOf?_map hid)]

end Wiring

namespace TopologicalOrder

open Wiring

/-- The order of a list depends on identities and inputs alone. -/
theorem ofNodes_map (hid : ∀ node, (f node).id = node.id)
    (hinputs : ∀ node, (f node).inputs = node.inputs) : ofNodes (nodes.map f) = ofNodes nodes := by
  have hdependents : dependents (nodes.map f) = dependents nodes := by
    rw [dependents, dependents, resolved_map hid hinputs, List.length_map]
  have hdrained : drained (nodes.map f) = drained nodes := by
    rw [drained, drained, hdependents, inputCounts, inputCounts, resolved_map hid hinputs]
  have hids : ∀ slot : Nat, (nodes.map f)[slot]?.map (·.id) = nodes[slot]?.map (·.id) := by
    intro slot
    rw [List.getElem?_map, Option.map_map]
    exact congrArg (fun g => nodes[slot]?.map g) (funext hid)
  have hcycle : cycleIdsOf (nodes.map f) = cycleIdsOf nodes := by
    rw [cycleIdsOf, cycleIdsOf, leftover, leftover, hdrained, hdependents]
    simp only [hids]
  rw [ofNodes, ofNodes, hdrained, hcycle, List.length_map]

end TopologicalOrder

namespace Graph

/-- The index of a list depends on identities alone. -/
theorem indexFrom_map (hid : ∀ node, (f node).id = node.id) (slot : Nat)
    (index : List (NodeId × Nat)) (stretch : List Node) :
    indexFrom slot index (stretch.map f) = indexFrom slot index stretch := by
  induction stretch generalizing slot index with
  | nil => rfl
  | cons node rest ih =>
      rw [List.map_cons, indexFrom, indexFrom, hid]
      cases slotIn? index node.id with
      | some earlier => rfl
      | none => exact ih (slot + 1) ((node.id, slot) :: index)

/-- So does the wiring that a build makes. -/
theorem resolveAll_map (hid : ∀ node, (f node).id = node.id)
    (hinputs : ∀ node, (f node).inputs = node.inputs) (slotOf : NodeId → Option Nat)
    (stretch : List Node) : resolveAll slotOf (stretch.map f) = resolveAll slotOf stretch := by
  induction stretch with
  | nil => rfl
  | cons node rest ih => rw [List.map_cons, resolveAll, resolveAll, hid, hinputs, ih]

/-! ## Other settings -/

variable {graph : Graph} {settings : NodeId → Detection → Detection}

/-- The graph with its settings of change detection replaced. -/
def retuned (graph : Graph) (settings : NodeId → Detection → Detection) : Graph :=
  { graph with nodes := graph.nodes.map (Node.retuned settings) }

/-- A list under other settings is built to the graph under these settings. -/
theorem build_retuned (hbuild : build nodes = .ok graph)
    (settings : NodeId → Detection → Detection) :
    build (nodes.map (Node.retuned settings)) = .ok (graph.retuned settings) := by
  have hid : ∀ node : Node, (node.retuned settings).id = node.id := fun _ => Node.retuned_id
  have hinputs : ∀ node : Node, (node.retuned settings).inputs = node.inputs :=
    fun _ => Node.retuned_inputs
  obtain ⟨index, inputSlots, hindex, hslots, rfl⟩ := build_eq_ok hbuild
  simp [build, retuned, indexFrom_map hid, resolveAll_map hid hinputs,
    TopologicalOrder.ofNodes_map hid hinputs, hindex, hslots, Except.map]

/-- Identities lead to the same nodes under other settings. -/
theorem node?_retuned (id : NodeId) :
    (graph.retuned settings).node? id = (graph.node? id).map (Node.retuned settings) := by
  unfold node? slot? retuned
  dsimp only
  cases slotIn? graph.index id with
  | none => rfl
  | some slot => exact List.getElem?_map

end Graph

end TriggerGraph
