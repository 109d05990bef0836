import TriggerGraph.Proofs.Evaluation.Reading
import TriggerGraph.Proofs.Graph.Faults
import TriggerGraph.Proofs.Graph.Publishable

/-!
# Errors name nodes of their list

Whatever goes wrong with a list of nodes, in validation, in building or in a pass, the error
tells where: each identity that it names is the identity of a node of the list, and the one
that it calls unknown is not.  No default ever stands in for an identity.  A pass fails
either as a whole, on a cycle or for want of a final node, or on one node that it visits,
and then the error names this node and nothing else.

Main results:

- Theorem `Validation.locates_of_mem_validate`: the reports of validation name nodes.
- Theorem `Graph.locates_of_build_eq_error`: building names the node that it stops at.
- Theorem `Evaluator.evaluate_eq_error_cases`: in which ways an evaluation can fail.
- Theorem `errors_name_nodes_of_their_list`: every error names nodes of its list only.
-/

namespace TriggerGraph

/-! ## What errors carry -/

/-- Of the identities that an error carries, those it names are identities of nodes of the
list, and the one it calls unknown is not. -/
structure Locates (nodes : List Node) (named : List NodeId) (unknown : Option NodeId) :
    Prop where
  named : ∀ id ∈ named, id ∈ nodes.map (·.id)
  unknown : ∀ id ∈ unknown, id ∉ nodes.map (·.id)

namespace NodeError

/-- The input that the fault calls unknown. -/
def unknown? : NodeError → Option NodeId
  | unknownInput _ input => some input
  | _ => none

theorem IsOwnTo.unknown?_eq {fault : NodeError} {id : NodeId} (h : fault.IsOwnTo id) :
    fault.unknown? = none := by
  have hnot := h.not_isUnknownInput
  cases fault with
  | unknownInput node input => cases hnot
  | _ => rfl

end NodeError

namespace GraphError

/-- The nodes that the fault names. -/
def nodes : GraphError → List NodeId
  | cycle nodes => nodes
  | finalCount finals => finals
  | finalInput final input _ => [final, input]
  | noDetection => []
  | node error => error.node?.toList

/-- The input that the fault calls unknown. -/
def unknown? : GraphError → Option NodeId
  | node error => error.unknown?
  | _ => none

end GraphError

namespace EvaluationError

/-- The nodes that the failure names. -/
def nodes : EvaluationError → List NodeId
  | cycle nodes => nodes
  | error => error.node?.toList

/-- The input that the failure calls unknown. -/
def unknown? : EvaluationError → Option NodeId
  | graphNotBuilt error => error.unknown?
  | _ => none

/-- The failure of a single node: it names the node and nothing else. -/
structure IsOn (error : EvaluationError) (id : NodeId) : Prop where
  nodes_eq : error.nodes = [id]
  unknown?_eq : error.unknown? = none

end EvaluationError

/-! ## Validation and building -/

/-- The nodes named as lying on cycles are nodes of the list. -/
theorem TopologicalOrder.mem_ids_of_mem_cycleIds {nodes : List Node} {id : NodeId}
    (h : id ∈ (ofNodes nodes).cycleIds) : id ∈ nodes.map (·.id) := by
  rcases mem_cycleIds_iff.1 h with ⟨slot, node, hnode, rfl, -⟩
  exact List.mem_map_of_mem (List.mem_of_getElem? hnode)

namespace Validation

variable {nodes : List Node} {declared : Nat} {fault : NodeError}

theorem mem_ids_of_lastById? {id : NodeId} {node : Node} (h : lastById? nodes id = some node) :
    node.id ∈ nodes.map (·.id) :=
  List.mem_map_of_mem (List.mem_reverse.1 (List.mem_of_find?_eq_some h))

theorem notMem_ids_of_lastById? {id : NodeId} (h : lastById? nodes id = none) :
    id ∉ nodes.map (·.id) := by
  intro hmem
  rcases List.mem_map.1 hmem with ⟨node, hnode, hid⟩
  have hne := List.find?_eq_none.1 h node (List.mem_reverse.2 hnode)
  simp [hid] at hne

/-- Faults of final nodes name nodes of the list. -/
theorem locates_of_mem_finalFaults {error : GraphError} (h : error ∈ finalFaults nodes) :
    Locates nodes error.nodes error.unknown? := by
  have hfinals : ∀ final ∈ nodes.filter Node.isFinal, final.id ∈ nodes.map (·.id) :=
    fun final hfinal => List.mem_map_of_mem (List.mem_filter.1 hfinal).1
  rcases List.mem_append.1 h with hcount | hinput
  · split at hcount
    · cases hcount
    · rw [List.mem_singleton.1 hcount]
      refine ⟨?_, by rintro id ⟨⟩⟩
      intro id hid
      rcases List.mem_map.1 hid with ⟨final, hfinal, rfl⟩
      exact hfinals final hfinal
  · rcases List.mem_filterMap.1 hinput with ⟨final, hfinal, hfault⟩
    unfold finalInputFault? at hfault
    split at hfault
    · cases hfault
    · rename_i input hbind
      rcases Option.bind_eq_some_iff.1 hbind with ⟨first, -, hfirst⟩
      split at hfault
      · cases hfault
      · cases hfault
        refine ⟨?_, by rintro id ⟨⟩⟩
        intro id hid
        rcases List.mem_cons.1 hid with rfl | hid
        · exact hfinals final hfinal
        · rw [List.mem_singleton.1 hid]
          exact mem_ids_of_lastById? hfirst

variable [SchemaEngine]

/-- Each fault reported of the nodes is a fault of one of them. -/
theorem exists_of_mem_nodeFaultsFrom {seen : List NodeId} {stretch : List Node}
    (h : fault ∈ nodeFaultsFrom nodes seen stretch) :
    ∃ node ∈ stretch, ∃ before, fault ∈ faultsOf nodes before node := by
  induction stretch generalizing seen with
  | nil => cases h
  | cons node rest ih =>
      rcases List.mem_append.1 h with hnode | hrest
      · exact ⟨node, List.mem_cons_self, seen, hnode⟩
      · rcases ih hrest with ⟨other, hother, hfault⟩
        exact ⟨other, List.mem_cons_of_mem node hother, hfault⟩

/-- A fault of a node names the node. -/
theorem node?_of_mem_nodeFaults (h : fault ∈ nodeFaults nodes) :
    ∃ node ∈ nodes, fault.node? = some node.id := by
  rcases exists_of_mem_nodeFaultsFrom h with ⟨node, hnode, before, hfault⟩
  refine ⟨node, hnode, ?_⟩
  rcases mem_faultsOf_cases hfault with rfl | ⟨input, -, -, rfl⟩ | hown
  · rfl
  · rfl
  · exact hown.node?_eq

/-- What a fault of a node calls unknown is no node's identity. -/
theorem notMem_ids_of_mem_nodeFaults (h : fault ∈ nodeFaults nodes) :
    ∀ id ∈ fault.unknown?, id ∉ nodes.map (·.id) := by
  rcases exists_of_mem_nodeFaultsFrom h with ⟨node, -, before, hfault⟩
  intro id hid
  rcases mem_faultsOf_cases hfault with rfl | ⟨input, -, hnone, rfl⟩ | hown
  · cases hid
  · cases hid
    exact notMem_ids_of_lastById? hnone
  · rw [hown.unknown?_eq] at hid
    cases hid

/-- Faults of nodes name nodes of the list, and unknown identities that are none of it. -/
theorem locates_of_mem_nodeFaults (h : fault ∈ nodeFaults nodes) :
    Locates nodes fault.node?.toList fault.unknown? := by
  refine ⟨?_, notMem_ids_of_mem_nodeFaults h⟩
  intro id hid
  rcases node?_of_mem_nodeFaults h with ⟨node, hnode, hfault⟩
  rw [hfault] at hid
  rw [List.mem_singleton.1 hid]
  exact List.mem_map_of_mem hnode

/-- The reports of validation name nodes of the list. -/
theorem locates_of_mem_validate {error : GraphError} (h : error ∈ validate nodes declared) :
    Locates nodes error.nodes error.unknown? := by
  unfold validate at h
  dsimp only at h
  split at h
  · rw [List.mem_singleton.1 h]
    exact ⟨fun id => TopologicalOrder.mem_ids_of_mem_cycleIds, by rintro id ⟨⟩⟩
  · simp only [List.mem_append, List.mem_map] at h
    rcases h with (hfinal | hconfig) | ⟨fault, hfault | hcount, rfl⟩
    · exact locates_of_mem_finalFaults hfinal
    · unfold configFaults at hconfig
      split at hconfig
      · cases hconfig
      · rw [List.mem_singleton.1 hconfig]
        exact ⟨by rintro id ⟨⟩, by rintro id ⟨⟩⟩
    · exact locates_of_mem_nodeFaults hfault
    · unfold countFaults at hcount
      split at hcount
      · cases hcount
      · rw [List.mem_singleton.1 hcount]
        exact ⟨by rintro id ⟨⟩, by rintro id ⟨⟩⟩

/-- A reported cycle names somebody. -/
theorem ne_nil_of_cycle_mem_validate {ids : List NodeId}
    (h : .cycle ids ∈ validate nodes declared) : ids ≠ [] := by
  cases hcycle : (TopologicalOrder.ofNodes nodes).hasCycle with
  | true =>
      rw [validate_of_cycle hcycle, List.mem_singleton, GraphError.cycle.injEq] at h
      rw [h]
      exact TopologicalOrder.cycleIds_ne_nil_iff.2 hcycle
  | false => exact absurd h (cycle_notMem_of_acyclic hcycle ids)

end Validation

namespace Graph

variable [SchemaEngine] {nodes : List Node} {error : NodeError}

/-- What building refuses a list with is a fault that validation would report. -/
theorem mem_nodeFaults_of_build_eq_error (h : build nodes = .error error) :
    error ∈ Validation.nodeFaults nodes := by
  rcases Option.or_eq_some_iff.1 (build_eq_error_iff.1 h) with hfirst | ⟨-, hfirst⟩
  · exact List.mem_of_find?_eq_some hfirst
  · exact List.mem_of_find?_eq_some hfirst

/-- Building names the node that it stops at. -/
theorem locates_of_build_eq_error (h : build nodes = .error error) :
    Locates nodes error.node?.toList error.unknown? ∧
      ∃ node ∈ nodes, error.node? = some node.id :=
  ⟨Validation.locates_of_mem_nodeFaults (mem_nodeFaults_of_build_eq_error h),
    Validation.node?_of_mem_nodeFaults (mem_nodeFaults_of_build_eq_error h)⟩

end Graph

/-! ## Single nodes -/

namespace Operator

variable {operands : Operands} {error : EvaluationError}

/-- The schema operator fails on its own node. -/
theorem isOn_of_schemaQuery_eq_error (h : schemaQuery operands = .error error) :
    error.IsOn operands.node := by
  unfold schemaQuery at h
  split at h
  · cases h
  · split at h
    · cases h
    · cases h
      exact ⟨rfl, rfl⟩

/-- The existence checks fail on their own node. -/
theorem isOn_of_lookup_eq_error (h : lookup operands = .error error) :
    error.IsOn operands.node := by
  unfold lookup at h
  split at h
  · cases h
    exact ⟨rfl, rfl⟩
  · split at h
    · cases h
      exact ⟨rfl, rfl⟩
    · cases h

variable [SchemaEngine]

/-- An operator fails on its own node, whatever the cache answers. -/
theorem isOn_of_run_eq_error {operator : Operator} {cache : SchemaCache}
    (h : (operator.run operands cache).1 = .error error) : error.IsOn operands.node := by
  by_cases hmatches : operator = .matchesSchema
  · subst hmatches
    simp only [run, ↓reduceIte] at h
    split at h
    · rename_i failure hquery
      cases h
      exact isOn_of_schemaQuery_eq_error hquery
    · cases h
    · rename_i v text hquery
      unfold schemaVerdict at h
      dsimp only at h
      split at h
      · cases h
      · cases h
        exact ⟨rfl, rfl⟩
  · rw [run_of_ne_matchesSchema hmatches] at h
    rcases apply_eq_error h with ⟨hschema, -⟩ | ⟨-, hlookup⟩
    · exact absurd hschema hmatches
    · exact isOn_of_lookup_eq_error hlookup

end Operator

namespace Pass

variable {pass : Pass} {node : Node} {error : EvaluationError}

/-- A provider that fails is named. -/
theorem isOn_of_provided_eq_error {id : NodeId} {path : String}
    (h : pass.provided id path = .error error) : error.IsOn id := by
  have hsource := Operator.map_eq_error_iff.1 h
  unfold sourceFor at hsource
  split at hsource
  · cases hsource
    exact ⟨rfl, rfl⟩
  · split at hsource
    · cases hsource
    · cases hsource
      exact ⟨rfl, rfl⟩

/-- A final node that fails is named. -/
theorem isOn_of_verdictOf_eq_error {id : NodeId} {wired : List (Node × Option Value)}
    (h : verdictOf id wired = .error error) : error.IsOn id := by
  unfold verdictOf at h
  split at h
  · cases h
  · cases h
  · cases h
    exact ⟨rfl, rfl⟩

variable [SchemaEngine]

/-- A node that cannot be calculated is named by the failure. -/
theorem isOn_of_calculate_eq_error {wired : List (Node × Option Value)} {cache : SchemaCache}
    (h : (pass.calculate node wired cache).1 = .error error) : error.IsOn node.id := by
  unfold calculate at h
  cases hkind : node.kind with
  | provider path =>
      rw [hkind] at h
      exact isOn_of_provided_eq_error (Operator.map_eq_error_iff.1 h)
  | logic operator =>
      rw [hkind] at h
      exact Operator.isOn_of_run_eq_error (Operator.map_eq_error_iff.1 h)
  | final =>
      rw [hkind] at h
      exact isOn_of_verdictOf_eq_error (Operator.map_eq_error_iff.1 h)
  | _ =>
      rw [hkind] at h
      cases h

/-! ## Passes -/

/-- The failure of a single node of the graph. -/
def FailsOnNode (graph : Graph) (error : EvaluationError) : Prop :=
  ∃ node ∈ graph.nodes, error.IsOn node.id

/-- A visit fails on the node visited. -/
theorem failsOnNode_of_visit {slot : Nat} {progress : Progress} {cache : SchemaCache}
    (h : (pass.visit slot progress cache).1 = .error error) : FailsOnNode pass.graph error := by
  unfold visit at h
  split at h
  · cases h
  · rename_i node hnode
    exact ⟨node, List.mem_of_getElem? hnode,
      isOn_of_calculate_eq_error (Operator.map_eq_error_iff.1 h)⟩

/-- Visits in any order end at the first failure, which is that of a node. -/
theorem failsOnNode_of_runSlots {slots : List Nat} {progress : Progress} {cache : SchemaCache}
    (h : (pass.runSlots slots progress cache).1 = .error error) :
    FailsOnNode pass.graph error := by
  induction slots generalizing progress cache with
  | nil => cases h
  | cons slot rest ih =>
      unfold runSlots at h
      split at h
      · rename_i failure next hvisit
        have hfails : (pass.visit slot progress cache).1 = .error error := by
          rw [hvisit]
          exact h
        exact failsOnNode_of_visit hfails
      · exact ih h

/-- A pass fails because of a cycle or on a node. -/
theorem run_eq_error_cases {cache : SchemaCache} (h : (pass.run cache).1 = .error error) :
    pass.graph.order.hasCycle = true ∧ error = .cycle pass.graph.order.cycleIds ∨
      FailsOnNode pass.graph error := by
  unfold run at h
  split at h
  · rename_i hcycle
    cases h
    exact .inl ⟨hcycle, rfl⟩
  · exact .inr (failsOnNode_of_runSlots h)

end Pass

/-- A finished pass has no outcome when there is no final node, or none that is boolean. -/
theorem Outcome.ofProgress_eq_error_cases {graph : Graph} {progress : Progress}
    {error : EvaluationError} (h : ofProgress graph progress = .error error) :
    error = .missingFinalNode ∨ Pass.FailsOnNode graph error := by
  unfold ofProgress at h
  split at h
  · cases h
    exact .inl rfl
  · rename_i slot hslot
    split at h
    · cases h
    · cases h
      obtain ⟨hlt, -⟩ := List.findIdx?_eq_some_iff_findIdx_eq.1 hslot
      refine .inr ⟨graph.nodes[slot], List.getElem_mem hlt, ?_, rfl⟩
      simp [EvaluationError.nodes, EvaluationError.node?, hlt]

namespace Evaluator

open Pass (FailsOnNode)

variable [SchemaEngine] {nodes : List Node} {graph : Graph} {evaluator : Evaluator}
  {context : Context} {now : Timestamp} {error : EvaluationError}

/-- An evaluation fails on a cycle, for want of a final node, or on a single node of the
graph. -/
theorem evaluate_eq_error_cases
    (h : (evaluator.evaluate graph context now).1 = .error error) :
    (graph.order.hasCycle = true ∧ error = .cycle graph.order.cycleIds) ∨
      error = .missingFinalNode ∨ FailsOnNode graph error := by
  unfold evaluate at h
  dsimp only at h
  cases hrun : (Pass.run ⟨graph, context, now⟩ evaluator.schemas).1 with
  | error failure =>
      rw [hrun] at h
      cases h
      exact (Pass.run_eq_error_cases hrun).imp_right .inr
  | ok progress =>
      rw [hrun] at h
      exact .inr (Outcome.ofProgress_eq_error_cases h)

/-- The failures of an evaluation name nodes of the list that the graph was built from, and
those on a cycle name some. -/
theorem locates_of_evaluate_eq_error (hbuild : Graph.build nodes = .ok graph)
    (h : (evaluator.evaluate graph context now).1 = .error error) :
    Locates nodes error.nodes error.unknown? ∧ ∀ ids, error = .cycle ids → ids ≠ [] := by
  rcases evaluate_eq_error_cases h with ⟨hcycle, rfl⟩ | rfl | ⟨node, hnode, hon⟩
  · rw [Graph.order_of_build hbuild] at hcycle ⊢
    refine ⟨⟨fun id => TopologicalOrder.mem_ids_of_mem_cycleIds, by rintro id ⟨⟩⟩, ?_⟩
    rintro ids ⟨⟩
    exact TopologicalOrder.cycleIds_ne_nil_iff.2 hcycle
  · exact ⟨⟨by rintro id ⟨⟩, by rintro id ⟨⟩⟩, by rintro ids ⟨⟩⟩
  · rw [Graph.nodes_of_build hbuild] at hnode
    refine ⟨⟨fun id hid => ?_, ?_⟩, ?_⟩
    · rw [hon.nodes_eq, List.mem_singleton] at hid
      exact hid ▸ List.mem_map_of_mem hnode
    · rw [hon.unknown?_eq]
      rintro id ⟨⟩
    · rintro ids rfl hnil
      have hnodes := hon.nodes_eq
      rw [hnil] at hnodes
      cases hnodes

/-- What evaluates a bare list fails in building a graph or in a pass over it. -/
theorem evaluateNodes_eq_error_cases (h : evaluateNodes nodes context now = .error error) :
    (∃ fault, Graph.build nodes = .error fault ∧ error = .graphNotBuilt fault) ∨
      ∃ graph, Graph.build nodes = .ok graph ∧
        (fresh.evaluate graph context now).1 = .error error := by
  unfold evaluateNodes at h
  split at h
  · rename_i fault hbuild
    cases h
    exact .inl ⟨fault, hbuild, rfl⟩
  · rename_i graph hbuild
    exact .inr ⟨graph, hbuild, Operator.map_eq_error_iff.1 h⟩

end Evaluator

/-! ## All errors -/

/-- Every identity that an error names is the identity of a node of the list at hand, and what
it calls an unknown input is not; and an error that tells of a cycle names some of its nodes.
This holds of each report of validation, of building, of every pass over the graph built, on
whatever evaluator, and of the evaluation of the bare list.  When the latter fails in
building, the node that it names is the one at fault and stands in for nothing else. -/
theorem errors_name_nodes_of_their_list [SchemaEngine] (nodes : List Node) :
    (∀ declared, ∀ error ∈ Validation.validate nodes declared,
        Locates nodes error.nodes error.unknown? ∧ ∀ ids, error = .cycle ids → ids ≠ []) ∧
      (∀ error, Graph.build nodes = .error error →
        Locates nodes error.node?.toList error.unknown? ∧
          ∃ node ∈ nodes, error.node? = some node.id) ∧
      (∀ graph, Graph.build nodes = .ok graph →
        ∀ (evaluator : Evaluator) (context : Context) (now : Timestamp) (error : EvaluationError),
          (evaluator.evaluate graph context now).1 = .error error →
            Locates nodes error.nodes error.unknown? ∧ ∀ ids, error = .cycle ids → ids ≠ []) ∧
      ∀ (context : Context) (now : Timestamp) (error : EvaluationError),
        Evaluator.evaluateNodes nodes context now = .error error →
          Locates nodes error.nodes error.unknown? ∧ (∀ ids, error = .cycle ids → ids ≠ []) ∧
            ∀ fault, Graph.build nodes = .error fault →
              ∃ node ∈ nodes, fault.node? = some node.id ∧ error.node? = some node.id := by
  refine ⟨?_, ?_, ?_, ?_⟩
  · intro declared error herror
    refine ⟨Validation.locates_of_mem_validate herror, ?_⟩
    rintro ids rfl
    exact Validation.ne_nil_of_cycle_mem_validate herror
  · intro error herror
    exact Graph.locates_of_build_eq_error herror
  · intro graph hbuild evaluator context now error herror
    exact Evaluator.locates_of_evaluate_eq_error hbuild herror
  · intro context now error herror
    rcases Evaluator.evaluateNodes_eq_error_cases herror with
      ⟨fault, hbuild, rfl⟩ | ⟨graph, hbuild, hfails⟩
    · rcases Graph.locates_of_build_eq_error hbuild with ⟨hlocates, node, hnode, hfault⟩
      have hon : (EvaluationError.graphNotBuilt fault).node? = some node.id := by
        simp [EvaluationError.node?, hfault]
      refine ⟨?_, by rintro ids ⟨⟩, ?_⟩
      · rw [hfault] at hlocates
        simpa [EvaluationError.nodes, hon, EvaluationError.unknown?] using hlocates
      · intro other hother
        cases hbuild.symm.trans hother
        exact ⟨node, hnode, hfault, hon⟩
    · rcases Evaluator.locates_of_evaluate_eq_error hbuild hfails with ⟨hlocates, hcycle⟩
      refine ⟨hlocates, hcycle, ?_⟩
      intro fault hfault
      cases hbuild.symm.trans hfault

/-- Two negations of each other, and a verdict on one of them. -/
def ring : List Node := [.logic 6 .not [9], .logic 9 .not [6], .final 4 (some 9)]

/-- The ring with its inputs resolved and its order. -/
def ringGraph : Graph :=
  ⟨ring, [(4, 2), (9, 1), (6, 0)], [[1], [0], [1]], ⟨[], true, [6, 9]⟩⟩

section BooleanSchemas

attribute [local instance] SchemaEngine.booleans

/-- What validation, building and evaluation say of the ring and of a jumbled list. -/
theorem errors_of_ring_and_jumble :
    (Locates Validation.jumble [1] (some 8) ∧
        .node (.unknownInput 1 8) ∈ Validation.validate Validation.jumble 4) ∧
      (Locates Validation.jumble [2] none ∧
        Graph.build Validation.jumble = .error (.duplicateId 2)) ∧
      (∃ graph, Graph.build ring = .ok graph ∧ Locates ring [6, 9] none ∧
        (Evaluator.fresh.evaluate graph .empty 0).1 = .error (.cycle [6, 9])) ∧
      Evaluator.evaluateNodes Validation.jumble .empty 0 =
          .error (.graphNotBuilt (.duplicateId 2)) ∧
        ∃ node ∈ Validation.jumble, (NodeError.duplicateId 2).node? = some node.id := by
  have hreported :
      .node (.unknownInput 1 8) ∈ Validation.validate Validation.jumble 4 := by
    decide +kernel
  have hrefused : Graph.build Validation.jumble = .error (.duplicateId 2) := by rfl
  have hring : Graph.build ring = .ok ringGraph := by rfl
  have hcycle : (Evaluator.fresh.evaluate ringGraph .empty 0).1 = .error (.cycle [6, 9]) := by
    rfl
  have hbare : Evaluator.evaluateNodes Validation.jumble .empty 0 =
      .error (.graphNotBuilt (.duplicateId 2)) := by rfl
  rcases errors_name_nodes_of_their_list Validation.jumble with
    ⟨hvalidated, hbuilt, -, hevaluated⟩
  refine ⟨⟨(hvalidated 4 _ hreported).1, hreported⟩, ⟨(hbuilt _ hrefused).1, hrefused⟩, ?_,
    hbare, ?_⟩
  · exact ⟨_, hring, ((errors_name_nodes_of_their_list ring).2.2.1 _ hring .fresh .empty 0 _
      hcycle).1, hcycle⟩
  · rcases (hevaluated .empty 0 _ hbare).2.2 _ hrefused with ⟨node, hnode, hnamed, -⟩
    exact ⟨node, hnode, hnamed⟩

end BooleanSchemas

end TriggerGraph
