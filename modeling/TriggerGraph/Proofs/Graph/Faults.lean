import TriggerGraph.Proofs.Graph.Acceptance
import TriggerGraph.Proofs.Operator.Results

/-!
# The faults that building refuses

Building looks for two kinds of fault only, repeated identities and inputs that name no
node, and stops at the first.  Validation goes through the nodes once and reports these
kinds among all others.  Taken out of the report, the faults of one kind stand in the order
in which building looks for them, so the report tells what building says: its first
repeated identity, or else its first unknown input.

Main results:

- Theorem `indexFrom_eq_error_iff`: indexing refuses the first identity reported as repeated.
- Theorem `filter_isUnknownInput_nodeFaults`: the unknown inputs that are reported.
- Theorem `build_eq_error_iff`: which fault building refuses a list with.
- Theorem `building_agrees_with_validation`: an accepted list can be built, a definition
  never fails to compile but for the faults reported, and building refuses what is reported.
-/

namespace TriggerGraph

/-! ## Kinds of faults -/

namespace NodeError

/-- Whether the fault is a repeated identity. -/
def isDuplicateId : NodeError → Bool
  | duplicateId _ => true
  | _ => false

/-- Whether the fault is an input that names no node. -/
def isUnknownInput : NodeError → Bool
  | unknownInput _ _ => true
  | _ => false

/-- A fault of a node that has its place in the graph: it names the node, and is neither a
repeated identity nor an unknown input. -/
structure IsOwnTo (fault : NodeError) (id : NodeId) : Prop where
  node?_eq : fault.node? = some id
  not_isDuplicateId : fault.isDuplicateId = false
  not_isUnknownInput : fault.isUnknownInput = false

end NodeError

/-- A fault of a node's settings names that node. -/
theorem Node.isOwnTo_of_configurationFault? {node : Node} {fault : NodeError}
    (h : node.configurationFault? = some fault) : fault.IsOwnTo node.id := by
  unfold configurationFault? at h
  cases hkind : node.kind with
  | provider path =>
      simp only [hkind] at h
      split at h
      · cases h
      · cases h
        exact ⟨rfl, rfl, rfl⟩
  | final =>
      simp only [hkind] at h
      split at h
      · cases h
        exact ⟨rfl, rfl, rfl⟩
      · cases h
  | config detection =>
      simp only [hkind] at h
      split at h
      · cases h
        exact ⟨rfl, rfl, rfl⟩
      · cases h
  | _ => simp [hkind] at h

/-- A wiring error names the node that is wired. -/
theorem Operator.node_of_checkWiring [SchemaEngine] {operator : Operator} {id : NodeId}
    {inputs : List Node} {error : WiringError} (h : operator.checkWiring id inputs = .error error) :
    error.node = id := by
  unfold checkWiring at h
  split at h
  · cases h
  · cases h
    rfl

namespace Validation

open Wiring

variable {nodes : List Node} {seen : List NodeId} {node : Node} {fault : NodeError}

/-- An unknown input is named beside the node that asks for it. -/
theorem exists_of_mem_unknownInputs (h : fault ∈ unknownInputs nodes node) :
    ∃ input ∈ node.inputs, lastById? nodes input = none ∧
      fault = .unknownInput node.id input := by
  rcases List.mem_map.1 h with ⟨input, hinput, rfl⟩
  rcases List.mem_filter.1 hinput with ⟨hmem, hnone⟩
  exact ⟨input, hmem, Option.isNone_iff_eq_none.1 hnone, rfl⟩

variable [SchemaEngine]

/-- A wiring fault of a node names that node. -/
theorem isOwnTo_of_wiringFault? (h : wiringFault? nodes node = some fault) :
    fault.IsOwnTo node.id := by
  unfold wiringFault? at h
  split at h
  · dsimp only at h
    split at h
    · split at h
      · cases h
      · rename_i error herror
        cases h
        exact ⟨congrArg some (Operator.node_of_checkWiring herror), rfl, rfl⟩
    · cases h
  · cases h

/-! ## The faults of one node -/

/-- The faults of a node besides its identity and its unknown inputs. -/
def ownFaults (nodes : List Node) (node : Node) : List NodeError :=
  node.configurationFault?.toList ++ (wiringFault? nodes node).toList

/-- A fault of a node's own names that node and no other. -/
theorem isOwnTo_of_mem_ownFaults (h : fault ∈ ownFaults nodes node) :
    fault.IsOwnTo node.id := by
  rcases List.mem_append.1 h with hsettings | hwiring
  · exact Node.isOwnTo_of_configurationFault? (Option.mem_toList.1 hsettings)
  · exact isOwnTo_of_wiringFault? (Option.mem_toList.1 hwiring)

/-- The faults of a node are a repeated identity, unknown inputs and its own, in this order. -/
theorem faultsOf_eq : faultsOf nodes seen node =
    (if seen.contains node.id then [.duplicateId node.id] else [])
      ++ (unknownInputs nodes node ++ ownFaults nodes node) := by
  simp only [faultsOf, ownFaults, List.append_assoc]

/-- A fault of a node is that its identity was seen before, that an input of it is unknown,
or one of its own. -/
theorem mem_faultsOf_cases (h : fault ∈ faultsOf nodes seen node) :
    fault = .duplicateId node.id ∨
      (∃ input ∈ node.inputs, lastById? nodes input = none ∧
        fault = .unknownInput node.id input) ∨
      fault.IsOwnTo node.id := by
  rw [faultsOf_eq, List.mem_append, List.mem_append] at h
  rcases h with hrepeated | hunknown | hown
  · split at hrepeated
    · exact .inl (List.mem_singleton.1 hrepeated)
    · cases hrepeated
  · exact .inr (.inl (exists_of_mem_unknownInputs hunknown))
  · exact .inr (.inr (isOwnTo_of_mem_ownFaults hown))

/-- A repeated identity is reported if it was seen before. -/
theorem find?_isDuplicateId_faultsOf :
    (faultsOf nodes seen node).find? NodeError.isDuplicateId =
      if seen.contains node.id then some (.duplicateId node.id) else none := by
  have hunknown : (unknownInputs nodes node).find? NodeError.isDuplicateId = none := by
    rw [List.find?_eq_none]
    intro fault hfault
    rcases exists_of_mem_unknownInputs hfault with ⟨input, -, -, rfl⟩
    exact Bool.false_ne_true
  have hown : (ownFaults nodes node).find? NodeError.isDuplicateId = none := by
    rw [List.find?_eq_none]
    intro fault hfault
    simp [(isOwnTo_of_mem_ownFaults hfault).not_isDuplicateId]
  rw [faultsOf_eq, List.find?_append, List.find?_append, hunknown, hown]
  split <;> rfl

theorem filter_isUnknownInput_faultsOf :
    (faultsOf nodes seen node).filter NodeError.isUnknownInput = unknownInputs nodes node := by
  have hrepeated : (if seen.contains node.id then [NodeError.duplicateId node.id] else []).filter
      NodeError.isUnknownInput = [] := by
    split <;> rfl
  have hunknown : (unknownInputs nodes node).filter NodeError.isUnknownInput =
      unknownInputs nodes node := by
    rw [List.filter_eq_self]
    intro fault hfault
    rcases exists_of_mem_unknownInputs hfault with ⟨input, -, -, rfl⟩
    rfl
  have hown : (ownFaults nodes node).filter NodeError.isUnknownInput = [] := by
    rw [List.filter_eq_nil_iff]
    intro fault hfault
    simp [(isOwnTo_of_mem_ownFaults hfault).not_isUnknownInput]
  rw [faultsOf_eq, List.filter_append, List.filter_append, hrepeated, hunknown, hown,
    List.nil_append, List.append_nil]

/-! ## The faults of all nodes -/

/-- So are those of a stretch of nodes. -/
theorem filter_isUnknownInput_nodeFaultsFrom (stretch : List Node) :
    (nodeFaultsFrom nodes seen stretch).filter NodeError.isUnknownInput =
      stretch.flatMap (unknownInputs nodes) := by
  induction stretch generalizing seen with
  | nil => rfl
  | cons node rest ih =>
      rw [nodeFaultsFrom, List.filter_append, filter_isUnknownInput_faultsOf, ih,
        List.flatMap_cons]

/-- The unknown inputs in the report are those of the nodes in their order. -/
theorem filter_isUnknownInput_nodeFaults :
    (nodeFaults nodes).filter NodeError.isUnknownInput = nodes.flatMap (unknownInputs nodes) :=
  filter_isUnknownInput_nodeFaultsFrom nodes

end Validation

/-! ## What building refuses -/

namespace Graph

open Wiring Validation

variable {nodes : List Node} {error : NodeError}

theorem lastById?_eq_none_iff {id : NodeId} :
    lastById? nodes id = none ↔ slotOf? nodes id = none := by
  rw [← not_iff_not, ← Ne, ← Ne, ← Option.isSome_iff_ne_none, ← Option.isSome_iff_ne_none,
    isSome_lastById?_iff, Option.isSome_iff_exists]

/-- The inputs of a node are refused with the first that is unknown. -/
theorem resolveInputs_eq_error_iff {node : Node} :
    resolveInputs (slotOf? nodes) node.id node.inputs = .error error ↔
      (unknownInputs nodes node).head? = some error := by
  unfold unknownInputs
  generalize node.inputs = inputs
  induction inputs with
  | nil => simp [resolveInputs]
  | cons input rest ih =>
      unfold resolveInputs
      cases hslot : slotOf? nodes input with
      | none => simp [lastById?_eq_none_iff.2 hslot]
      | some slot =>
          have hknown : (lastById? nodes input).isNone = false := by
            rw [← Bool.not_eq_true, Option.isNone_iff_eq_none, lastById?_eq_none_iff, hslot]
            exact Option.some_ne_none slot
          dsimp only
          rw [Operator.map_eq_error_iff, ih, List.filter_cons_of_neg (by simp [hknown])]

/-- The inputs of all nodes are refused with the first that is unknown. -/
theorem resolveAll_eq_error_iff {stretch : List Node} :
    resolveAll (slotOf? nodes) stretch = .error error ↔
      (stretch.flatMap (unknownInputs nodes)).head? = some error := by
  induction stretch with
  | nil => simp [resolveAll]
  | cons node rest ih =>
      unfold resolveAll
      rw [List.flatMap_cons, List.head?_append]
      cases hnode : resolveInputs (slotOf? nodes) node.id node.inputs with
      | error refusal =>
          rw [resolveInputs_eq_error_iff.1 hnode]
          simp
      | ok slots =>
          have hknown : (unknownInputs nodes node).head? = none := by
            rw [Option.eq_none_iff_forall_ne_some]
            intro refusal hrefusal
            rw [resolveInputs_eq_error_iff.2 hrefusal] at hnode
            cases hnode
          dsimp only
          rw [hknown, Operator.map_eq_error_iff, ih]
          rfl

variable [SchemaEngine]

/-- Indexing refuses a stretch with its first reported identity that is in the index or
repeated. -/
theorem indexFrom_eq_error_iff {stretch : List Node} {slot : Nat} {index : List (NodeId × Nat)} :
    indexFrom slot index stretch = .error error ↔
      (nodeFaultsFrom nodes (index.map Prod.fst) stretch).find? NodeError.isDuplicateId =
        some error := by
  induction stretch generalizing slot index with
  | nil => simp [indexFrom, nodeFaultsFrom]
  | cons node rest ih =>
      unfold indexFrom
      rw [nodeFaultsFrom, List.find?_append, find?_isDuplicateId_faultsOf]
      cases hseen : slotIn? index node.id with
      | some earlier =>
          have hmem : (index.map Prod.fst).contains node.id = true := by
            rw [contains_map_fst, hseen, Option.isSome_some]
          rw [hmem]
          simp
      | none =>
          have hnew : (index.map Prod.fst).contains node.id = false := by
            rw [contains_map_fst, hseen, Option.isSome_none]
          rw [hnew]
          exact ih

/-- A list is refused with the first repeated identity reported, or else with the first
unknown input reported. -/
theorem build_eq_error_iff :
    build nodes = .error error ↔
      ((nodeFaults nodes).find? NodeError.isDuplicateId).or
        ((nodeFaults nodes).find? NodeError.isUnknownInput) = some error := by
  have hunknown : (nodeFaults nodes).find? NodeError.isUnknownInput =
      (nodes.flatMap (unknownInputs nodes)).head? := by
    rw [← List.head?_filter, filter_isUnknownInput_nodeFaults]
  have hrepeated (repeated : NodeError) : indexFrom 0 [] nodes = .error repeated ↔
      (nodeFaults nodes).find? NodeError.isDuplicateId = some repeated :=
    indexFrom_eq_error_iff
  unfold build
  cases hindex : indexFrom 0 [] nodes with
  | error repeated =>
      rw [(hrepeated repeated).1 hindex]
      simp
  | ok index =>
      have hnone : (nodeFaults nodes).find? NodeError.isDuplicateId = none := by
        rw [Option.eq_none_iff_forall_ne_some]
        intro repeated hfind
        rw [(hrepeated repeated).2 hfind] at hindex
        cases hindex
      dsimp only
      rw [hnone, hunknown, slotIn?_eq hindex, Operator.map_eq_error_iff, resolveAll_eq_error_iff]
      rfl

/-! ## Compilation -/

/-- A definition compiles exactly when nothing is reported and its list can be built. -/
theorem compile_eq_ok_iff {definition : GraphDefinition} {graph : Graph} :
    compile definition = .ok graph ↔
      validate definition.nodes definition.declaredCount = [] ∧
        build definition.nodes = .ok graph := by
  unfold compile
  cases validate definition.nodes definition.declaredCount with
  | cons first rest => simp
  | nil => cases build definition.nodes <;> simp

/-- A definition is invalid exactly with what is reported. -/
theorem compile_eq_invalid_iff {definition : GraphDefinition} {errors : List GraphError} :
    compile definition = .error (.invalid errors) ↔
      validate definition.nodes definition.declaredCount = errors ∧ errors ≠ [] := by
  unfold compile
  cases validate definition.nodes definition.declaredCount with
  | cons first rest =>
      simp only [Except.error.injEq, CompileError.invalid.injEq]
      refine ⟨fun h => ⟨h, h ▸ List.cons_ne_nil first rest⟩, fun h => h.1⟩
  | nil =>
      cases build definition.nodes <;> simp

/-- A definition is compiled as it is: how it was loaded is no matter of compiling. -/
theorem compile_ne_definition (definition : GraphDefinition) (error : DefinitionError) :
    compile definition ≠ .error (.definition error) := by
  unfold compile
  cases validate definition.nodes definition.declaredCount with
  | cons first rest => simp
  | nil => cases build definition.nodes <;> simp

/-- Once nothing is reported, building refuses nothing. -/
theorem compile_ne_node (definition : GraphDefinition) (error : NodeError) :
    compile definition ≠ .error (.node error) := by
  unfold compile
  cases hreport : validate definition.nodes definition.declaredCount with
  | cons first rest => simp
  | nil =>
      rcases exists_compileNodes_of_accepted hreport with ⟨graph, -, hbuild⟩
      simp [hbuild]

end Graph

namespace Validation

/-- Validation and building agree.  An accepted list can be built, whatever count was
declared, so compiling a definition never fails in building.  And building refuses a list
exactly when a repeated identity or an unknown input is reported for it: then with the first
repeated identity of the report or, if there is none, with the first unknown input.  Cycles
do not matter here. -/
theorem building_agrees_with_validation [SchemaEngine] (nodes : List Node) :
    (∀ declared, validate nodes declared = [] → ∃ graph, Graph.build nodes = .ok graph) ∧
      (∀ (definition : GraphDefinition) (error : NodeError),
        Graph.compile definition ≠ .error (.node error)) ∧
      ((∃ error, Graph.build nodes = .error error) ↔
        ∃ fault ∈ nodeFaults nodes, fault.isDuplicateId = true ∨ fault.isUnknownInput = true) ∧
      ∀ error, Graph.build nodes = .error error ↔
        ((nodeFaults nodes).find? NodeError.isDuplicateId).or
          ((nodeFaults nodes).find? NodeError.isUnknownInput) = some error := by
  refine ⟨?_, Graph.compile_ne_node, ?_, fun error => Graph.build_eq_error_iff⟩
  · intro declared haccepted
    rcases exists_compileNodes_of_accepted haccepted with ⟨graph, -, hbuild⟩
    exact ⟨graph, hbuild⟩
  · simp only [Graph.build_eq_error_iff, ← Option.isSome_iff_exists, Option.isSome_or,
      Bool.or_eq_true, List.find?_isSome, and_or_left, exists_or]

/-- A list in which unknown inputs are reported before, between and after repeated
identities. -/
def jumble : List Node :=
  [.logic 1 .not [8, 9], .constant 2 (.bool true), .logic 2 .and [8, 1], .final 1 (some 7)]

section BooleanSchemas

attribute [local instance] SchemaEngine.booleans

/-- The jumble is reported and refused, a sound list neither. -/
theorem jumble_is_refused :
    nodeFaults jumble = [.unknownInput 1 8, .unknownInput 1 9, .duplicateId 2,
        .unknownInput 2 8, .duplicateId 1, .unknownInput 1 7] ∧
      Graph.build jumble = .error (.duplicateId 2) ∧
      validate [.provider 1 "source.a", .config 2 .anyChange [1], .final 3 (some 2)] 3 = [] ∧
      ∃ graph, Graph.build
        [.provider 1 "source.a", .config 2 .anyChange [1], .final 3 (some 2)] = .ok graph := by
  have haccepted :
      validate [.provider 1 "source.a", .config 2 .anyChange [1], .final 3 (some 2)] 3 = [] := by
    rfl
  refine ⟨by rfl, ?_, haccepted, ?_⟩
  · exact ((building_agrees_with_validation jumble).2.2.2 _).2 (by rfl)
  · exact (building_agrees_with_validation _).1 3 haccepted

end BooleanSchemas

end Validation

end TriggerGraph
