import TriggerGraph.Proofs.Graph.Building

/-!
# The parts of a graph agree

The index, the input slots and the order of a graph are computed one after another, the order
with an index of its own that takes the first of several equal identities and skips what it does
not know.  In a built graph no identity is repeated and none is unknown, so all three speak of
the same slots: the order puts every slot behind its own input slots, and what keeps it from
doing so is a cycle through them.

Main results:

- Theorem `inputSlots_of_build`: the input slots are those by which the nodes are ordered.
- Theorem `slot?_eq_some_iff`: the index and the node list are inverse.
- Theorem `hasCycle_iff_of_build`: a graph has a cycle exactly when its input slots lead from
  some slot back to it.
- Theorem `consistent_of_build`: all parts of a built graph agree.
-/

namespace TriggerGraph

namespace Graph

open Relation Wiring

/-- The node at a slot has an input at another. -/
def InputEdge (graph : Graph) (slot source : Nat) : Prop := source ∈ graph.inputsAt slot

/-- The nodes, the index, the input slots and the order of a graph agree. -/
structure Consistent (graph : Graph) : Prop where
  /-- The slot of an identity is the one that holds it. -/
  slot?_eq_some_iff : ∀ id slot, graph.slot? id = some slot ↔
    ∃ node, graph.nodes[slot]? = some node ∧ node.id = id
  /-- There are input slots for each slot. -/
  length_inputSlots : graph.inputSlots.length = graph.nodes.length
  /-- A slot has as many input slots as its node has inputs. -/
  length_inputsAt : ∀ slot node, graph.nodes[slot]? = some node →
    (graph.inputsAt slot).length = node.inputs.length
  /-- The input slots of a slot are the slots of the inputs of its node, in their order. -/
  inputsAt_eq : ∀ slot node, graph.nodes[slot]? = some node →
    ∀ (i : Nat) (input : NodeId), node.inputs[i]? = some input →
      (graph.inputsAt slot)[i]? = graph.slot? input
  /-- Without a cycle all slots are in order, each once. -/
  sorted_perm : graph.order.hasCycle = false →
    graph.order.sorted.Perm (List.range graph.nodes.length)
  /-- Without a cycle a slot comes after its input slots. -/
  sorted_after : graph.order.hasCycle = false →
    ∀ front slot back, graph.order.sorted = front ++ slot :: back →
      ∀ source ∈ graph.inputsAt slot, source ∈ front
  /-- With a cycle the input slots lead from some slot back to it. -/
  exists_cycle : graph.order.hasCycle = true →
    ∃ slot < graph.nodes.length, TransGen graph.InputEdge slot slot

variable {nodes : List Node} {graph : Graph}

/-! ## Index and nodes -/

/-- The slot of an identity is the one that holds it. -/
theorem slot?_eq_some_iff (h : build nodes = .ok graph) {id : NodeId} {slot : Nat} :
    graph.slot? id = some slot ↔ ∃ node, nodes[slot]? = some node ∧ node.id = id := by
  constructor
  · intro hslot
    rw [slot?_eq h] at hslot
    exact (slotOf?_eq_some_iff.1 hslot).1
  · rintro ⟨node, hnode, rfl⟩
    exact slot?_of_build h hnode

/-! ## Input slots -/

/-- Where every input is known, the slots that are found are those of all inputs. -/
theorem filterMap_of_forall₂ {slotOf : NodeId → Option Nat} {inputs : List NodeId}
    {slots : List Nat}
    (h : List.Forall₂ (fun input slot => slotOf input = some slot) inputs slots) :
    inputs.filterMap slotOf = slots := by
  induction h with
  | nil => rfl
  | cons hinput _ ih => rw [List.filterMap_cons_some hinput, ih]

theorem eq_map_of_resolveAll {slotOf : NodeId → Option Nat} {stretch : List Node}
    {slots : List (List Nat)} (h : resolveAll slotOf stretch = .ok slots) :
    slots = stretch.map fun node => node.inputs.filterMap slotOf := by
  have hall := resolveAll_eq_ok_iff.1 h
  clear h
  induction hall with
  | nil => rfl
  | cons hnode _ ih =>
      rw [List.map_cons, filterMap_of_forall₂ (resolveInputs_eq_ok_iff.1 hnode), ih]

/-- The input slots of a graph are those by which its nodes are ordered. -/
theorem inputSlots_of_build (h : build nodes = .ok graph) : graph.inputSlots = resolved nodes := by
  obtain ⟨index, slots, hindex, hslots, rfl⟩ := build_eq_ok h
  rw [slotIn?_eq hindex] at hslots
  exact eq_map_of_resolveAll hslots

/-- A slot feeds another exactly when it is among the input slots of that one. -/
theorem inputEdge_iff_feeds (h : build nodes = .ok graph) {slot source : Nat} :
    graph.InputEdge slot source ↔ Feeds nodes source slot := by
  unfold InputEdge inputsAt
  rw [inputSlots_of_build h, feeds_iff_mem_resolved]

/-! ## Order -/

/-- Without a cycle all slots are in order, each once. -/
theorem perm_sorted_of_build (h : build nodes = .ok graph) (hcycle : graph.order.hasCycle = false) :
    graph.order.sorted.Perm (List.range nodes.length) := by
  rw [order_of_build h] at hcycle ⊢
  rw [List.perm_ext_iff_of_nodup (TopologicalOrder.nodup_sorted nodes) List.nodup_range]
  intro slot
  rw [(TopologicalOrder.orders_sorted hcycle).mem_iff, List.mem_range]

/-- The input slots lead from a slot back to it exactly when it lies on a cycle. -/
theorem transGen_inputEdge_iff (h : build nodes = .ok graph) {slot : Nat} :
    TransGen graph.InputEdge slot slot ↔ OnCycle nodes slot := by
  have hswap : graph.InputEdge = Function.swap (Feeds nodes) := by
    funext slot source
    exact propext (inputEdge_iff_feeds h)
  rw [hswap, transGen_swap, OnCycle]

/-- A graph has a cycle exactly when its input slots lead from some slot back to it. -/
theorem hasCycle_iff_of_build (h : build nodes = .ok graph) :
    graph.order.hasCycle = true ↔ ∃ slot < nodes.length, TransGen graph.InputEdge slot slot := by
  rw [order_of_build h, ← not_iff_not, Bool.not_eq_true, TopologicalOrder.hasCycle_eq_false_iff,
    wellFounded_feeds_iff]
  simp only [transGen_inputEdge_iff h, not_exists, not_and]
  exact ⟨fun hall slot _ => hall slot, fun hall slot hslot => hall slot hslot.lt hslot⟩

/-- All parts of a built graph agree. -/
theorem consistent_of_build (h : build nodes = .ok graph) :
    graph.nodes = nodes ∧ graph.Consistent := by
  have hnodes := nodes_of_build h
  refine ⟨hnodes, ?_⟩
  constructor
  case slot?_eq_some_iff =>
    intro id slot
    rw [hnodes, slot?_eq_some_iff h]
  case length_inputSlots =>
    rw [inputSlots_of_build h, hnodes, resolved, List.length_map]
  case length_inputsAt =>
    intro slot node hnode
    rw [hnodes] at hnode
    exact (forall₂_inputsAt h hnode).length_eq.symm
  case inputsAt_eq =>
    intro slot node hnode i input hinput
    rw [hnodes] at hnode
    have hall := forall₂_inputsAt h hnode
    obtain ⟨hlt, rfl⟩ := List.getElem?_eq_some_iff.1 hinput
    have hlt' : i < (graph.inputsAt slot).length := hall.length_eq ▸ hlt
    rw [List.getElem?_eq_getElem hlt', slot?_eq h]
    exact (hall.get hlt hlt').symm
  case sorted_perm =>
    intro hcycle
    rw [hnodes]
    exact perm_sorted_of_build h hcycle
  case sorted_after =>
    intro hcycle front slot back hsorted source hsource
    rw [order_of_build h] at hcycle hsorted
    exact (TopologicalOrder.orders_sorted hcycle).after front slot back hsorted source
      ((inputEdge_iff_feeds h).1 hsource)
  case exists_cycle =>
    rw [hnodes]
    exact (hasCycle_iff_of_build h).1

/-- A list whose final node and operator stand before their inputs, one input being wired
twice. -/
def crossing : List Node :=
  [.final 9 (some 4), .logic 4 .or [7, 2, 7], .provider 2 "source.a",
    .config 7 Detection.anyChange [2]]

/-- The crossing with its inputs resolved and its order. -/
def crossingGraph : Graph :=
  ⟨crossing, [(7, 3), (2, 2), (4, 1), (9, 0)], [[1], [3, 2, 3], [], [2]],
    ⟨[2, 3, 1, 0], false, []⟩⟩

/-- Two operators that read each other, and a final node behind them. -/
def loop : List Node := [.final 3 (some 2), .logic 1 .not [2], .logic 2 .not [1]]

theorem crossing_and_loop_are_consistent :
    (build crossing = .ok crossingGraph ∧ crossingGraph.nodes = crossing ∧
        crossingGraph.Consistent) ∧
      ∃ graph, build loop = .ok graph ∧ graph.order.hasCycle = true ∧ graph.nodes = loop ∧
        graph.Consistent := by
  have hcrossing : build crossing = .ok crossingGraph := by rfl
  have hloop : build loop = .ok
      ⟨loop, [(2, 2), (1, 1), (3, 0)], [[2], [2], [1]], ⟨[], true, [1, 2]⟩⟩ := by rfl
  exact ⟨⟨hcrossing, consistent_of_build hcrossing⟩, _, hloop, rfl, consistent_of_build hloop⟩

end Graph

end TriggerGraph
