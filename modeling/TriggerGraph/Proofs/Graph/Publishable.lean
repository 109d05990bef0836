import TriggerGraph.Proofs.Graph.Acceptance
import TriggerGraph.Proofs.Node.Path
import TriggerGraph.Proofs.Operator.Fitting

/-!
# The lists that can be published

What validation looks for can be said of a node list directly: which nodes there are,
which of them name which as inputs, and what each asks of its inputs.  Validation
accepts exactly the lists of which this holds.  The single checks speak of the last node
of an identity where the order speaks of the first; when identities are distinct, which
is itself checked, the two are the one node that has the identity.

Main results:

- Theorem `configurationFault?_eq_none_iff`: which settings pass.
- Theorem `wiringFault?_eq_none_iff_fits`: which wirings pass.
- Theorem `validate_eq_nil_iff_publishable`: validation accepts exactly the lists that
  can be published, and reports a cycle exactly alone.
-/

namespace TriggerGraph

open Relation

/-! ## Settings of single nodes -/

namespace Node

variable {node : Node}

/-- The settings of a node are right exactly when its path is below the root, its window
is not negative, and as a final node it has one input at most. -/
theorem configurationFault?_eq_none_iff :
    node.configurationFault? = none ↔
      (∀ path, node.kind = .provider path → Path.BelowRoot path) ∧
        (∀ detection, node.kind = .config detection → 0 ≤ detection.windowMillis.toInt) ∧
          (node.isFinal = true → node.inputs.length ≤ 1) := by
  unfold configurationFault? isFinal
  cases node.kind with
  | provider path =>
      dsimp only
      cases hcheck : Path.checkProvider path with
      | ok passed =>
          have hbelow : Path.BelowRoot path := Path.checkProvider_eq_ok_iff.1 hcheck
          simp [hbelow]
      | error fault =>
          have hbelow : ¬ Path.BelowRoot path := by
            rw [← Path.checkProvider_eq_ok_iff, hcheck]
            simp
          simp [hbelow]
  | config detection => simp
  | final => simp
  | constant value => simp
  | logic operator => simp
  | schema text => simp

end Node

namespace Validation

open Wiring

/-! ## The form of a list -/

/-- A list that can be published: what is asked of the nodes, of their settings and of
their wiring. -/
structure Publishable [SchemaEngine] (nodes : List Node) (declared : Nat) : Prop where
  acyclic : ∀ slot, ¬ TransGen (Feeds nodes) slot slot
  distinct : (nodes.map (·.id)).Nodup
  known : ∀ node ∈ nodes, ∀ input ∈ node.inputs, ∃ source ∈ nodes, source.id = input
  final : ∃ final, nodes.filter Node.isFinal = [final] ∧ final.inputs.length ≤ 1 ∧
    ∀ source ∈ nodes, source.id ∈ final.inputs → source.outputType = .boolean
  detects : ∃ node ∈ nodes, node.isConfig = true
  windows : ∀ node ∈ nodes, ∀ detection, node.kind = .config detection →
    0 ≤ detection.windowMillis.toInt
  paths : ∀ node ∈ nodes, ∀ path, node.kind = .provider path → Path.BelowRoot path
  wiring : ∀ node ∈ nodes, ∀ operator, node.kind = .logic operator →
    ∃ inputs, List.Forall₂ (fun id input => input ∈ nodes ∧ input.id = id) node.inputs inputs ∧
      operator.Fits inputs
  count : declared = nodes.length

variable {nodes : List Node} {declared : Nat} {graph : Graph}

/-! ## The single checks -/

/-- An identity has a slot exactly when some node has it. -/
theorem exists_slotOf?_iff {id : NodeId} :
    (∃ slot, slotOf? nodes id = some slot) ↔ ∃ node ∈ nodes, node.id = id := by
  rw [← isSome_lastById?_iff]
  simp [lastById?]

/-- No cycle is reported if none is there. -/
theorem hasCycle_eq_false_iff_acyclic :
    (TopologicalOrder.ofNodes nodes).hasCycle = false ↔
      ∀ slot, ¬ TransGen (Feeds nodes) slot slot :=
  TopologicalOrder.hasCycle_eq_false_iff.trans wellFounded_feeds_iff

/-- The declared number of nodes is right if it is that of the list. -/
theorem countFaults_eq_nil_iff : countFaults nodes declared = [] ↔ declared = nodes.length := by
  simp [countFaults]

/-- The final nodes are right exactly when there is one and what its first input leads to
is declared boolean. -/
theorem finalFaults_eq_nil_iff :
    finalFaults nodes = [] ↔ ∃ final, nodes.filter Node.isFinal = [final] ∧
      ∀ source, final.inputs.head?.bind (lastById? nodes) = some source →
        source.outputType = .boolean := by
  have hinput : ∀ final, finalInputFault? nodes final = none ↔
      ∀ source, final.inputs.head?.bind (lastById? nodes) = some source →
        source.outputType = .boolean := by
    intro final
    unfold finalInputFault?
    cases final.inputs.head?.bind (lastById? nodes) with
    | none => simp
    | some source => simp
  unfold finalFaults
  rw [List.append_eq_nil_iff, List.filterMap_eq_nil_iff]
  constructor
  · rintro ⟨hcount, hinputs⟩
    have hlength : (nodes.filter Node.isFinal).length = 1 := by
      by_contra hne
      simp [hne] at hcount
    rcases List.length_eq_one_iff.1 hlength with ⟨final, hfinal⟩
    refine ⟨final, hfinal, (hinput final).1 (hinputs final ?_)⟩
    rw [hfinal]
    exact List.mem_singleton_self final
  · rintro ⟨final, hfinal, hsource⟩
    rw [hfinal]
    refine ⟨by simp, ?_⟩
    intro other hother
    rw [List.mem_singleton] at hother
    subst hother
    exact (hinput other).2 hsource

/-! ## Checks that follow inputs -/

/-- In a list that can be built, the nodes that identities lead to are those that have
them. -/
theorem lastById?_eq_some_iff (hbuild : Graph.build nodes = .ok graph) {id : NodeId}
    {node : Node} : lastById? nodes id = some node ↔ node ∈ nodes ∧ node.id = id := by
  rw [lastById?_eq_node? hbuild, Graph.node?_eq_some_iff hbuild]

/-- The input nodes of a node are those that have the identities listed, one by one. -/
theorem forall₂_iff_filterMap (hbuild : Graph.build nodes = .ok graph) {node : Node}
    (hnode : node ∈ nodes) {inputs : List Node} :
    List.Forall₂ (fun id input => input ∈ nodes ∧ input.id = id) node.inputs inputs ↔
      inputs = node.inputs.filterMap (lastById? nodes) := by
  have hknown : ∀ id ∈ node.inputs, ∃ input, lastById? nodes id = some input := by
    intro id hid
    rw [lastById?_eq_node? hbuild]
    exact Graph.exists_node?_of_mem_inputs hbuild hnode hid
  generalize node.inputs = ids at hknown ⊢
  induction ids generalizing inputs with
  | nil => simp
  | cons id rest ih =>
      rw [List.forall_mem_cons] at hknown
      rcases hknown with ⟨⟨input, hinput⟩, hrest⟩
      rw [List.filterMap_cons_some hinput, List.forall₂_cons_left_iff]
      constructor
      · rintro ⟨other, others, hother, hothers, rfl⟩
        cases hinput.symm.trans ((lastById?_eq_some_iff hbuild).2 hother)
        rw [(ih hrest).1 hothers]
      · rintro rfl
        exact ⟨input, _, (lastById?_eq_some_iff hbuild).1 hinput, (ih hrest).2 rfl, rfl⟩

/-- The final nodes are right in a list that can be built exactly when there is one and
all that feeds it first is declared boolean. -/
theorem finalFaults_eq_nil_iff_of_build (hbuild : Graph.build nodes = .ok graph) :
    finalFaults nodes = [] ↔ ∃ final, nodes.filter Node.isFinal = [final] ∧
      ∀ source ∈ nodes, final.inputs.head? = some source.id → source.outputType = .boolean := by
  rw [finalFaults_eq_nil_iff]
  refine exists_congr fun final => and_congr_right fun _ => ⟨?_, ?_⟩
  · intro hfirst source hsource hhead
    refine hfirst source ?_
    rw [hhead, Option.bind_some]
    exact (lastById?_eq_some_iff hbuild).2 ⟨hsource, rfl⟩
  · intro hall source hbind
    rcases Option.bind_eq_some_iff.1 hbind with ⟨id, hhead, hlast⟩
    rcases (lastById?_eq_some_iff hbuild).1 hlast with ⟨hsource, rfl⟩
    exact hall source hsource hhead

/-- A list of one element at most holds nothing but its head. -/
theorem head?_eq_some_iff_mem {α : Type} {xs : List α} (h : xs.length ≤ 1) {x : α} :
    xs.head? = some x ↔ x ∈ xs := by
  rcases xs with - | ⟨first, - | ⟨second, rest⟩⟩
  · simp
  · simp [eq_comm]
  · simp at h

variable [SchemaEngine]

/-- The wiring of a node is right exactly when its operator, if it is a logic node, finds
its inputs to fit. -/
theorem wiringFault?_eq_none_iff_fits (hbuild : Graph.build nodes = .ok graph) {node : Node}
    (hnode : node ∈ nodes) :
    wiringFault? nodes node = none ↔ ∀ operator, node.kind = .logic operator →
      ∃ inputs, List.Forall₂ (fun id input => input ∈ nodes ∧ input.id = id) node.inputs inputs ∧
        operator.Fits inputs := by
  have hlength : (node.inputs.filterMap (lastById? nodes)).length = node.inputs.length := by
    rw [funext (lastById?_eq_node? hbuild)]
    exact length_inputNodes hbuild hnode
  simp only [forall₂_iff_filterMap hbuild hnode, exists_eq_left]
  unfold wiringFault?
  cases node.kind with
  | logic operator =>
      simp only [hlength, ↓reduceIte, NodeKind.logic.injEq, forall_eq']
      rw [← Operator.wiringFault?_eq_none_iff_fits, Operator.checkWiring]
      cases operator.wiringFault? (node.inputs.filterMap (lastById? nodes)) <;> simp
  | _ => simp

/-! ## Acceptance -/

/-- What the checks of single nodes say of all of them together. -/
theorem nodeFaults_eq_nil_iff_forall (hbuild : Graph.build nodes = .ok graph) :
    nodeFaults nodes = [] ↔
      (∀ node ∈ nodes, ∀ path, node.kind = .provider path → Path.BelowRoot path) ∧
        (∀ node ∈ nodes, ∀ detection, node.kind = .config detection →
          0 ≤ detection.windowMillis.toInt) ∧
          (∀ node ∈ nodes, node.isFinal = true → node.inputs.length ≤ 1) ∧
            ∀ node ∈ nodes, ∀ operator, node.kind = .logic operator →
              ∃ inputs, List.Forall₂ (fun id input => input ∈ nodes ∧ input.id = id)
                  node.inputs inputs ∧ operator.Fits inputs := by
  rw [nodeFaults_eq_nil_iff]
  have hunknown : ∀ node ∈ nodes, unknownInputs nodes node = [] := fun node hnode =>
    unknownInputs_eq_nil_iff.2 ((Graph.isOk_build_iff.1 ⟨graph, hbuild⟩).2 node hnode)
  constructor
  · rintro ⟨-, hchecks⟩
    have hsettings := fun node hnode =>
      Node.configurationFault?_eq_none_iff.1 (hchecks node hnode).2.1
    exact ⟨fun node hnode => (hsettings node hnode).1, fun node hnode => (hsettings node hnode).2.1,
      fun node hnode => (hsettings node hnode).2.2,
      fun node hnode => (wiringFault?_eq_none_iff_fits hbuild hnode).1 (hchecks node hnode).2.2⟩
  · rintro ⟨hpaths, hwindows, hfinals, hwiring⟩
    refine ⟨Graph.nodup_of_build hbuild, fun node hnode => ⟨hunknown node hnode, ?_, ?_⟩⟩
    · exact Node.configurationFault?_eq_none_iff.2
        ⟨hpaths node hnode, hwindows node hnode, hfinals node hnode⟩
    · exact (wiringFault?_eq_none_iff_fits hbuild hnode).2 (hwiring node hnode)

/-- A list that validation accepts is publishable. -/
theorem publishable_of_accepted (h : validate nodes declared = []) :
    Publishable nodes declared := by
  rcases exists_compileNodes_of_accepted h with ⟨graph, -, hbuild⟩
  rcases validate_eq_nil_iff.1 h with ⟨hcycle, hfinal, hconfig, hnodes, hcount⟩
  rcases (nodeFaults_eq_nil_iff_forall hbuild).1 hnodes with ⟨hpaths, hwindows, hfinals, hwiring⟩
  rcases (finalFaults_eq_nil_iff_of_build hbuild).1 hfinal with ⟨final, hone, hboolean⟩
  have hmem : final ∈ nodes.filter Node.isFinal := by
    rw [hone]
    exact List.mem_singleton_self final
  rcases List.mem_filter.1 hmem with ⟨hnode, hisFinal⟩
  have hlength := hfinals final hnode hisFinal
  exact {
    acyclic := hasCycle_eq_false_iff_acyclic.1 hcycle
    distinct := Graph.nodup_of_build hbuild
    known := fun node hnode input hinput => exists_slotOf?_iff.1
      ((Graph.isOk_build_iff.1 ⟨graph, hbuild⟩).2 node hnode input hinput)
    final := ⟨final, hone, hlength, fun source hsource hinput =>
      hboolean source hsource ((head?_eq_some_iff_mem hlength).2 hinput)⟩
    detects := (configFaults_eq_nil_iff nodes).1 hconfig
    windows := hwindows
    paths := hpaths
    wiring := hwiring
    count := countFaults_eq_nil_iff.1 hcount }

/-- Validation accepts a publishable list. -/
theorem Publishable.accepted (h : Publishable nodes declared) : validate nodes declared = [] := by
  rcases h.final with ⟨final, hone, hlength, hboolean⟩
  have hslots : ∀ node ∈ nodes, ∀ input ∈ node.inputs, ∃ slot, slotOf? nodes input = some slot :=
    fun node hnode input hinput => exists_slotOf?_iff.2 (h.known node hnode input hinput)
  rcases Graph.isOk_build_iff.2 ⟨h.distinct, hslots⟩ with ⟨graph, hbuild⟩
  have hfinals : ∀ node ∈ nodes, node.isFinal = true → node.inputs.length ≤ 1 := by
    intro node hnode hisFinal
    have hmem : node ∈ nodes.filter Node.isFinal := List.mem_filter.2 ⟨hnode, hisFinal⟩
    rw [hone, List.mem_singleton] at hmem
    exact hmem ▸ hlength
  refine validate_eq_nil_iff.2 ⟨hasCycle_eq_false_iff_acyclic.2 h.acyclic, ?_,
    (configFaults_eq_nil_iff nodes).2 h.detects, ?_, countFaults_eq_nil_iff.2 h.count⟩
  · refine (finalFaults_eq_nil_iff_of_build hbuild).2 ⟨final, hone, ?_⟩
    intro source hsource hhead
    exact hboolean source hsource ((head?_eq_some_iff_mem hlength).1 hhead)
  · exact (nodeFaults_eq_nil_iff_forall hbuild).2 ⟨h.paths, h.windows, hfinals, h.wiring⟩

/-- Only a cyclic list has a cycle reported. -/
theorem cycle_notMem_of_acyclic (h : (TopologicalOrder.ofNodes nodes).hasCycle = false)
    (ids : List NodeId) : GraphError.cycle ids ∉ validate nodes declared := by
  have hfinal : GraphError.cycle ids ∉ finalFaults nodes := by
    unfold finalFaults finalInputFault?
    intro hmem
    rcases List.mem_append.1 hmem with hcount | hinput
    · split at hcount <;> simp at hcount
    · rcases List.mem_filterMap.1 hinput with ⟨final, -, hfault⟩
      split at hfault
      · cases hfault
      · split at hfault <;> cases hfault
  have hconfig : GraphError.cycle ids ∉ configFaults nodes := by
    unfold configFaults
    split <;> simp
  simp [validate, h, hfinal, hconfig]

/-- Validation accepts exactly the lists that can be published.  On a list with a cycle,
and on no other, its only report is one cycle. -/
theorem validate_eq_nil_iff_publishable (nodes : List Node) (declared : Nat) :
    (validate nodes declared = [] ↔ Publishable nodes declared) ∧
      ((∃ slot, TransGen (Feeds nodes) slot slot) ↔
        ∃ ids, validate nodes declared = [.cycle ids]) := by
  refine ⟨⟨publishable_of_accepted, Publishable.accepted⟩, ?_⟩
  by_cases hcycle : (TopologicalOrder.ofNodes nodes).hasCycle = false
  · have hacyclic := hasCycle_eq_false_iff_acyclic.1 hcycle
    constructor
    · rintro ⟨slot, hslot⟩
      exact absurd hslot (hacyclic slot)
    · rintro ⟨ids, hreport⟩
      have hnot : GraphError.cycle ids ∉ validate nodes declared :=
        cycle_notMem_of_acyclic hcycle ids
      rw [hreport] at hnot
      exact absurd (List.mem_singleton_self _) hnot
  · have hslot : ∃ slot, TransGen (Feeds nodes) slot slot := by
      rw [hasCycle_eq_false_iff_acyclic] at hcycle
      simpa using hcycle
    rw [Bool.not_eq_false] at hcycle
    exact ⟨fun _ => ⟨_, validate_of_cycle hcycle declared⟩, fun _ => hslot⟩

end Validation

end TriggerGraph
