import TriggerGraph.Proofs.Graph.Permutation

/-!
# Lists without some of their nodes

A part of a list that can be published, if it has the inputs of all its nodes, passes every
check that looks at nodes and their wiring.  Only the two checks of what a whole list must
have are left open, a final node and change detection.  So a node that nothing reads can be
taken out of an accepted list, and all that may be missed is what the node itself was.

Main results:

- Theorem `Publishable.nodeFaults_of_closed`: no node of a closed part is at fault.
- Theorem `Publishable.validate_of_closed`: what is reported of a closed part.
- Theorem `removing_unused_node_is_local`: what is reported of a list without an unused node.
-/

namespace TriggerGraph

/-- A final node detects no changes. -/
theorem Node.isConfig_of_isFinal {node : Node} (h : node.isFinal = true) :
    node.isConfig = false := by
  unfold isFinal at h
  unfold isConfig
  cases hkind : node.kind with
  | config detection => simp [hkind] at h
  | _ => rfl

namespace Validation

open Wiring

variable {nodes part : List Node} {declared : Nat}

/-! ## Closed parts -/

/-- Some nodes of a list in their order, and with each of them its inputs. -/
structure ClosedPart (part nodes : List Node) : Prop where
  sublist : part.Sublist nodes
  known : ∀ node ∈ part, ∀ input ∈ node.inputs, ∃ source ∈ part, source.id = input

namespace ClosedPart

/-- In a list of distinct identities, a closed part has the very nodes that its inputs lead
to. -/
theorem mem_of_input (hpart : ClosedPart part nodes) (hdistinct : (nodes.map (·.id)).Nodup)
    {node source : Node} (hnode : node ∈ part) (hsource : source ∈ nodes)
    (hinput : source.id ∈ node.inputs) : source ∈ part := by
  rcases hpart.known node hnode source.id hinput with ⟨other, hother, hid⟩
  have hsame : other = source :=
    List.inj_on_of_nodup_map hdistinct (hpart.sublist.subset hother) hsource hid
  exact hsame ▸ hother

/-- The input nodes of a node are the same in the part as in the list. -/
theorem forall₂_inputs (hpart : ClosedPart part nodes) (hdistinct : (nodes.map (·.id)).Nodup)
    {node : Node} (hnode : node ∈ part) {inputs : List Node}
    (hinputs : List.Forall₂ (fun id input => input ∈ nodes ∧ input.id = id) node.inputs inputs) :
    List.Forall₂ (fun id input => input ∈ part ∧ input.id = id) node.inputs inputs := by
  rw [List.forall₂_iff_get] at hinputs ⊢
  refine ⟨hinputs.1, fun place hid hinput => ?_⟩
  rcases hinputs.2 place hid hinput with ⟨hmem, hsame⟩
  refine ⟨hpart.mem_of_input hdistinct hnode hmem ?_, hsame⟩
  rw [hsame]
  exact List.get_mem _ _

end ClosedPart

/-! ## What is reported of a closed part -/

/-- The only node of a kind is in the list and of the kind. -/
theorem mem_of_filter_eq_singleton {keep : Node → Bool} {only : Node}
    (h : nodes.filter keep = [only]) : only ∈ nodes ∧ keep only = true := by
  refine List.mem_filter.1 ?_
  rw [h]
  exact List.mem_singleton_self only

namespace Publishable

variable [SchemaEngine]

/-- The identities of a closed part do not repeat. -/
theorem nodup_of_closed (h : Publishable nodes declared) (hpart : ClosedPart part nodes) :
    (part.map (·.id)).Nodup :=
  (hpart.sublist.map _).nodup h.distinct

/-- A closed part has no cycle. -/
theorem hasCycle_of_closed (h : Publishable nodes declared) (hpart : ClosedPart part nodes) :
    (TopologicalOrder.ofNodes part).hasCycle = false :=
  hasCycle_eq_false_iff_acyclic.2
    (TopologicalOrder.not_onCycle_of_subset hpart.sublist.subset h.distinct h.acyclic)

/-- A closed part is a graph. -/
theorem exists_build_of_closed (h : Publishable nodes declared) (hpart : ClosedPart part nodes) :
    ∃ graph, Graph.build part = .ok graph :=
  Graph.isOk_build_iff.2 ⟨h.nodup_of_closed hpart, fun node hnode input hinput =>
    exists_slotOf?_iff.2 (hpart.known node hnode input hinput)⟩

/-- No node of a closed part is at fault. -/
theorem nodeFaults_of_closed (h : Publishable nodes declared) (hpart : ClosedPart part nodes) :
    nodeFaults part = [] := by
  have hmem : ∀ node ∈ part, node ∈ nodes := fun _ hnode => hpart.sublist.subset hnode
  rcases h.exists_build_of_closed hpart with ⟨graph, hbuild⟩
  rcases h.final with ⟨final, hone, hlength, -⟩
  refine (nodeFaults_eq_nil_iff_forall hbuild).2 ⟨fun node hnode => h.paths node (hmem node hnode),
    fun node hnode => h.windows node (hmem node hnode), ?_, ?_⟩
  · intro node hnode hisFinal
    have hnode : node ∈ nodes.filter Node.isFinal := List.mem_filter.2 ⟨hmem node hnode, hisFinal⟩
    rw [hone, List.mem_singleton] at hnode
    exact hnode ▸ hlength
  · intro node hnode operator hkind
    rcases h.wiring node (hmem node hnode) operator hkind with ⟨inputs, hinputs, hfits⟩
    exact ⟨inputs, hpart.forall₂_inputs h.distinct hnode hinputs, hfits⟩

/-- The final node of a list is still right in a closed part, unless it is missing there. -/
theorem finalFaults_of_closed (h : Publishable nodes declared) (hpart : ClosedPart part nodes) :
    finalFaults part = if part.any Node.isFinal then [] else [.finalCount []] := by
  rcases h.exists_build_of_closed hpart with ⟨graph, hbuild⟩
  rcases h.final with ⟨final, hone, hlength, hboolean⟩
  have hfilter : (part.filter Node.isFinal).Sublist [final] := hone ▸ hpart.sublist.filter _
  rcases List.sublist_singleton.1 hfilter with hnone | hfinal
  · have hany : part.any Node.isFinal = false := by
      simpa [List.filter_eq_nil_iff] using hnone
    simp [finalFaults, hnone, hany]
  · rw [if_pos (List.any_eq_true.2 ⟨final, mem_of_filter_eq_singleton hfinal⟩),
      finalFaults_eq_nil_iff_of_build hbuild]
    refine ⟨final, hfinal, fun source hsource hhead => ?_⟩
    exact hboolean source (hpart.sublist.subset hsource)
      ((head?_eq_some_iff_mem hlength).1 hhead)

/-- Of a closed part all that may be reported is that there is no final node and no change
detection. -/
theorem validate_of_closed (h : Publishable nodes declared) (hpart : ClosedPart part nodes) :
    validate part part.length =
      (if part.any Node.isFinal then [] else [.finalCount []]) ++
        if part.any Node.isConfig then [] else [.noDetection] := by
  rw [validate, h.hasCycle_of_closed hpart, h.finalFaults_of_closed hpart,
    h.nodeFaults_of_closed hpart, countFaults_eq_nil_iff.2 rfl]
  simp [configFaults]

end Publishable

/-! ## Unused nodes -/

variable {front back : List Node} {node : Node}

/-- A list without a node that nothing reads is a closed part of it. -/
theorem closedPart_of_unused [SchemaEngine] (h : Publishable (front ++ node :: back) declared)
    (hunused : ∀ other ∈ front ++ node :: back, node.id ∉ other.inputs) :
    ClosedPart (front ++ back) (front ++ node :: back) := by
  have hsublist : (front ++ back).Sublist (front ++ node :: back) :=
    (List.sublist_cons_self node back).append_left front
  refine ⟨hsublist, fun reader hreader input hinput => ?_⟩
  have hmem := hsublist.subset hreader
  rcases h.known reader hmem input hinput with ⟨source, hsource, rfl⟩
  refine ⟨source, ?_, rfl⟩
  rcases List.mem_append.1 hsource with hfront | hrest
  · exact List.mem_append_left back hfront
  · rcases List.mem_cons.1 hrest with rfl | hback
    · exact absurd hinput (hunused reader hmem)
    · exact List.mem_append_right front hback

/-- A node is the only one of a kind exactly when without it there is none. -/
theorem filter_eq_singleton_iff {keep : Node → Bool} (hkeep : keep node = true) :
    (front ++ node :: back).filter keep = [node] ↔ (front ++ back).any keep = false := by
  rw [List.filter_append, List.filter_cons_of_pos hkeep, List.append_eq_singleton_iff,
    List.any_append, Bool.or_eq_false_iff, List.any_eq_false, List.any_eq_false]
  simp [List.filter_eq_nil_iff]

/-- A node of another kind is not missed. -/
theorem any_of_not {keep : Node → Bool} (hkeep : keep node = false) :
    (front ++ back).any keep = (front ++ node :: back).any keep := by
  simp [hkeep]

/-- A node that no node reads can be taken out of an accepted list.  If it is the final node,
exactly the want of a final node is reported then; if nothing else detects changes, exactly
the want of change detection; and otherwise nothing. -/
theorem removing_unused_node_is_local [SchemaEngine]
    (haccepted : validate (front ++ node :: back) (front ++ node :: back).length = [])
    (hunused : ∀ other ∈ front ++ node :: back, node.id ∉ other.inputs) :
    let declared := (front ++ node :: back).length - 1
    let onlyDetector := (front ++ node :: back).filter Node.isConfig = [node]
    (node.isFinal = true → validate (front ++ back) declared = [.finalCount []]) ∧
      (onlyDetector → validate (front ++ back) declared = [.noDetection]) ∧
      (node.isFinal = false → ¬ onlyDetector → validate (front ++ back) declared = []) := by
  intro declared onlyDetector
  have h := publishable_of_accepted haccepted
  have hdeclared : declared = (front ++ back).length := by
    simp [declared]
  have hreport := h.validate_of_closed (closedPart_of_unused h hunused)
  rw [← hdeclared] at hreport
  rcases h.final with ⟨final, hone, -⟩
  have hfinals : (front ++ node :: back).any Node.isFinal = true :=
    List.any_eq_true.2 ⟨final, mem_of_filter_eq_singleton hone⟩
  have hdetects : (front ++ node :: back).any Node.isConfig = true :=
    List.any_eq_true.2 h.detects
  refine ⟨fun hfinal => ?_, fun honly => ?_, fun hfinal honly => ?_⟩
  · have hnode : node ∈ (front ++ node :: back).filter Node.isFinal :=
      List.mem_filter.2 ⟨by simp, hfinal⟩
    rw [hone, List.mem_singleton] at hnode
    rw [← hnode, filter_eq_singleton_iff hfinal] at hone
    rw [hreport, hone, any_of_not (Node.isConfig_of_isFinal hfinal), hdetects]
    rfl
  · have hconfig : node.isConfig = true := (mem_of_filter_eq_singleton honly).2
    have hfinal : node.isFinal = false := by
      by_contra hfinal
      rw [Node.isConfig_of_isFinal (Bool.not_eq_false _ ▸ hfinal)] at hconfig
      cases hconfig
    rw [hreport, any_of_not hfinal, hfinals, (filter_eq_singleton_iff hconfig).1 honly]
    rfl
  · have hconfigs : (front ++ back).any Node.isConfig = true := by
      cases hconfig : node.isConfig with
      | false => rw [any_of_not hconfig, hdetects]
      | true =>
          by_contra hnone
          exact honly ((filter_eq_singleton_iff hconfig).2 (Bool.not_eq_true _ ▸ hnone))
    rw [hreport, any_of_not hfinal, hfinals, hconfigs]
    rfl

/-- A value that must not be null, with changes of it detected, and a constant to spare. -/
def doorman : List Node :=
  [.provider 1 "source.guest", .logic 2 .pathNotNull [1], .config 3 .anyChange [1],
    .constant 4 .null, .final 5 (some 2)]

section BooleanSchemas

attribute [local instance] SchemaEngine.booleans

/-- The doorman loses its verdict, its change detection and the constant, each on its own. -/
theorem doorman_without_unused_nodes :
    validate (doorman.take 4) 4 = [.finalCount []] ∧
      validate (doorman.take 2 ++ doorman.drop 3) 4 = [.noDetection] ∧
      validate (doorman.take 3 ++ doorman.drop 4) 4 = [] := by
  refine ⟨?_, ?_, ?_⟩
  · exact (@removing_unused_node_is_local (doorman.take 4) [] (.final 5 (some 2)) _ (by rfl)
      (by decide)).1 rfl
  · exact (@removing_unused_node_is_local (doorman.take 2) (doorman.drop 3)
      (.config 3 .anyChange [1]) _ (by rfl) (by decide)).2.1 rfl
  · exact (@removing_unused_node_is_local (doorman.take 3) (doorman.drop 4) (.constant 4 .null)
      _ (by rfl) (by decide)).2.2 rfl
        fun honly => absurd (congrArg (List.map (·.id)) honly) (by decide)

end BooleanSchemas

end Validation

end TriggerGraph
