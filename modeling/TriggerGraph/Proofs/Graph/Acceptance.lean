import TriggerGraph.Graph.Validation
import TriggerGraph.Proofs.Graph.Building

/-!
# What accepted lists are like

Validation reports nothing only if each of its checks does.  An accepted list can be
built, and in the built graph the checks speak of the very nodes that the inputs lead
to: with distinct identities the last node of an identity is the first.

Main results:

- Theorem `nodeFaults_eq_nil_iff`: no node is at fault exactly when identities are
  distinct and each node passes its own checks.
- Theorem `exists_compileNodes_of_accepted`: an accepted list compiles.
- Theorems `wiringFault?_of_accepted` and `outputType_of_final_input`: what the checks
  of logic and final nodes say about the input nodes of the graph.
-/

namespace TriggerGraph

namespace Validation

open Wiring

variable {nodes : List Node} {declared : Nat} {graph : Graph}

/-! ## What identities lead to -/

/-- An identity is known exactly when some node has it. -/
theorem isSome_lastById?_iff {id : NodeId} :
    (lastById? nodes id).isSome = true ↔ ∃ slot, slotOf? nodes id = some slot := by
  have hknown : (∃ slot, slotOf? nodes id = some slot) ↔ ∃ node ∈ nodes, node.id = id := by
    induction nodes with
    | nil => simp [slotOf?]
    | cons head rest ih =>
        by_cases hhead : head.id = id
        · simp [slotOf?, hhead]
        · rw [List.exists_mem_cons_iff, ← ih]
          simp [slotOf?, hhead]
  rw [hknown]
  simp [lastById?]

/-- A node has no unknown inputs if each has a slot. -/
theorem unknownInputs_eq_nil_iff {node : Node} :
    unknownInputs nodes node = [] ↔
      ∀ input ∈ node.inputs, ∃ slot, slotOf? nodes input = some slot := by
  unfold unknownInputs
  rw [List.map_eq_nil_iff, List.filter_eq_nil_iff]
  refine forall₂_congr fun input _ => ?_
  rw [← isSome_lastById?_iff, Option.isSome_iff_ne_none]
  simp

/-- With distinct identities the last node of an identity is the node of the graph. -/
theorem lastById?_eq_node? (hbuild : Graph.build nodes = .ok graph) (id : NodeId) :
    lastById? nodes id = graph.node? id := by
  have hlast : ∀ node, lastById? nodes id = some node → graph.node? id = some node := by
    intro node hnode
    have hid : node.id = id := by simpa using List.find?_some hnode
    have hmem : node ∈ nodes := List.mem_reverse.1 (List.mem_of_find?_eq_some hnode)
    exact (Graph.node?_eq_some_iff hbuild).2 ⟨hmem, hid⟩
  cases hfind : lastById? nodes id with
  | some node => exact (hlast node hfind).symm
  | none =>
      cases hnode : graph.node? id with
      | none => rfl
      | some node =>
          rcases (Graph.node?_eq_some_iff hbuild).1 hnode with ⟨hmem, hid⟩
          have hnone := List.find?_eq_none.1 hfind node (List.mem_reverse.2 hmem)
          simp [hid] at hnone

/-- Each input of a node leads to a node of the graph. -/
theorem length_inputNodes (hbuild : Graph.build nodes = .ok graph) {node : Node}
    (hnode : node ∈ nodes) :
    (node.inputs.filterMap graph.node?).length = node.inputs.length := by
  rw [List.length_filterMap_eq_countP, List.countP_eq_length]
  intro input hinput
  rcases Graph.exists_node?_of_mem_inputs hbuild hnode hinput with ⟨source, hsource⟩
  rw [hsource]
  rfl

/-! ## The single reports -/

variable [SchemaEngine]

/-- Nothing is reported exactly when no check reports anything. -/
theorem validate_eq_nil_iff :
    validate nodes declared = [] ↔
      (TopologicalOrder.ofNodes nodes).hasCycle = false ∧ finalFaults nodes = [] ∧
        configFaults nodes = [] ∧ nodeFaults nodes = [] ∧ countFaults nodes declared = [] := by
  unfold validate
  by_cases hcycle : (TopologicalOrder.ofNodes nodes).hasCycle = true
  · simp [hcycle]
  · simp [hcycle]

/-- Nodes have no faults if their identities are new and differ and each has none of its own. -/
theorem nodeFaultsFrom_eq_nil_iff {seen : List NodeId} {stretch : List Node} :
    nodeFaultsFrom nodes seen stretch = [] ↔
      ((stretch.map (·.id)).Nodup ∧ ∀ node ∈ stretch, node.id ∉ seen) ∧
        ∀ node ∈ stretch, unknownInputs nodes node = [] ∧ node.configurationFault? = none ∧
          wiringFault? nodes node = none := by
  induction stretch generalizing seen with
  | nil => simp [nodeFaultsFrom]
  | cons node rest ih =>
      have hfaults : faultsOf nodes seen node = [] ↔ node.id ∉ seen ∧
          unknownInputs nodes node = [] ∧ node.configurationFault? = none ∧
            wiringFault? nodes node = none := by
        simp [faultsOf]
      rw [nodeFaultsFrom, List.append_eq_nil_iff, hfaults, ih, List.map_cons, List.nodup_cons,
        List.forall_mem_cons, List.forall_mem_cons]
      constructor
      · rintro ⟨⟨hseen, hnode⟩, ⟨hnodup, hfresh⟩, hrest⟩
        have hhead : node.id ∉ rest.map (·.id) := by
          intro hmem
          rcases List.mem_map.1 hmem with ⟨other, hother, hid⟩
          exact hfresh other hother (hid ▸ List.mem_cons_self)
        refine ⟨⟨⟨hhead, hnodup⟩, hseen, ?_⟩, hnode, hrest⟩
        intro other hother hmem
        exact hfresh other hother (List.mem_cons_of_mem _ hmem)
      · rintro ⟨⟨⟨hhead, hnodup⟩, hseen, hfresh⟩, hnode, hrest⟩
        refine ⟨⟨hseen, hnode⟩, ⟨hnodup, ?_⟩, hrest⟩
        intro other hother hmem
        rcases List.mem_cons.1 hmem with hid | hmem
        · exact hhead (List.mem_map.2 ⟨other, hother, hid⟩)
        · exact hfresh other hother hmem

/-- No node is at fault exactly when identities are distinct and each node passes its
own checks. -/
theorem nodeFaults_eq_nil_iff :
    nodeFaults nodes = [] ↔ (nodes.map (·.id)).Nodup ∧
      ∀ node ∈ nodes, unknownInputs nodes node = [] ∧ node.configurationFault? = none ∧
        wiringFault? nodes node = none := by
  simp [nodeFaults, nodeFaultsFrom_eq_nil_iff]

/-! ## Accepted lists -/

/-- An accepted list has no cycle. -/
theorem hasCycle_of_accepted (h : validate nodes declared = []) :
    (TopologicalOrder.ofNodes nodes).hasCycle = false :=
  (validate_eq_nil_iff.1 h).1

/-- An accepted list compiles to the graph that it is built to. -/
theorem exists_compileNodes_of_accepted (h : validate nodes declared = []) :
    ∃ graph, Graph.compileNodes nodes = .ok graph ∧ Graph.build nodes = .ok graph := by
  rcases validate_eq_nil_iff.1 h with ⟨hcycle, hfinal, hconfig, hnodes, hcount⟩
  rcases nodeFaults_eq_nil_iff.1 hnodes with ⟨hnodup, hchecks⟩
  have hknown : ∀ node ∈ nodes, ∀ input ∈ node.inputs,
      ∃ slot, slotOf? nodes input = some slot := by
    intro node hnode
    exact unknownInputs_eq_nil_iff.1 (hchecks node hnode).1
  rcases Graph.isOk_build_iff.2 ⟨hnodup, hknown⟩ with ⟨graph, hbuild⟩
  have hvalid : validate nodes nodes.length = [] :=
    validate_eq_nil_iff.2 ⟨hcycle, hfinal, hconfig, hnodes, by simp [countFaults]⟩
  have hcompile : Graph.compileNodes nodes = .ok graph := by
    unfold Graph.compileNodes Graph.compile
    rw [GraphDefinition.declaredCount_ofNodes]
    simp only [GraphDefinition.ofNodes, hvalid, hbuild]
  exact ⟨graph, hcompile, hbuild⟩

/-- There is a final node. -/
theorem exists_final_of_accepted (h : validate nodes declared = []) :
    ∃ node ∈ nodes, node.isFinal = true := by
  have hfinal := (validate_eq_nil_iff.1 h).2.1
  unfold finalFaults at hfinal
  have hcount := (List.append_eq_nil_iff.1 hfinal).1
  have hlength : (nodes.filter Node.isFinal).length = 1 := by
    by_contra hne
    simp [hne] at hcount
  have hpos : 0 < (nodes.filter Node.isFinal).length := by omega
  rcases List.length_pos_iff_exists_mem.1 hpos with ⟨node, hnode⟩
  exact ⟨node, List.mem_filter.1 hnode⟩

/-- The wiring of a logic node has been checked against the nodes its inputs lead
to. -/
theorem wiringFault?_of_accepted (h : validate nodes declared = [])
    (hbuild : Graph.build nodes = .ok graph) {node : Node} (hnode : node ∈ nodes)
    {operator : Operator} (hkind : node.kind = .logic operator) :
    operator.wiringFault? (node.inputs.filterMap graph.node?) = none := by
  have hnodes := (validate_eq_nil_iff.1 h).2.2.2.1
  have hwiring := ((nodeFaults_eq_nil_iff.1 hnodes).2 node hnode).2.2
  have hlast : lastById? nodes = graph.node? := funext (lastById?_eq_node? hbuild)
  unfold wiringFault? at hwiring
  rw [hkind, hlast] at hwiring
  simp only [length_inputNodes hbuild hnode, ↓reduceIte, Operator.checkWiring] at hwiring
  cases hfault : operator.wiringFault? (node.inputs.filterMap graph.node?) with
  | none => rfl
  | some fault => simp [hfault] at hwiring

/-- What feeds a final node is declared boolean. -/
theorem outputType_of_final_input (h : validate nodes declared = [])
    (hbuild : Graph.build nodes = .ok graph) {final : Node} (hnode : final ∈ nodes)
    (hfinal : final.isFinal = true) {input : NodeId} {rest : List NodeId}
    (hinputs : final.inputs = input :: rest) {source : Node}
    (hsource : graph.node? input = some source) : source.outputType = .boolean := by
  have hfaults := (validate_eq_nil_iff.1 h).2.1
  unfold finalFaults at hfaults
  have hnone := List.filterMap_eq_nil_iff.1 (List.append_eq_nil_iff.1 hfaults).2 final
    (List.mem_filter.2 ⟨hnode, hfinal⟩)
  unfold finalInputFault? at hnone
  rw [hinputs, List.head?_cons, Option.bind_some, lastById?_eq_node? hbuild, hsource] at hnone
  by_contra hne
  simp [hne] at hnone

end Validation

end TriggerGraph
