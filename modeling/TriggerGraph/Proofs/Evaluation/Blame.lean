import TriggerGraph.Proofs.Evaluation.Declared
import TriggerGraph.Proofs.Evaluation.Safety
import TriggerGraph.Proofs.Graph.Depth
import TriggerGraph.Proofs.Graph.Faults

/-!
# Which failure a pass reports

Several nodes of a graph may be at fault in one pass: each has no value, although all that it
depends on has one.  A pass reports the first of them in its order.  Since the order ascends in
depth, the report is a shallowest cause, and among nodes without inputs the one that is listed
first.

Main results:

- Theorem `Pass.atFault_iff_fails`: a node is at fault exactly when its inputs have values and
  it means an error on them.
- Theorem `Pass.exists_front_of_run_eq_error`: before the reported node all nodes have values.
- Theorem `Evaluator.failure_is_shallowest`: no node at fault is less deep than the one reported.
-/

namespace TriggerGraph

open Relation

/-! ## Providers without a source -/

namespace Node

variable {context : Context} {now : Timestamp} {node : Node}
  {inputs : List (Node × Option Value)}

/-- Of the nodes without inputs only providers may fail in an accepted list. -/
theorem MayFail.isProvider_of_no_inputs {nodes : List Node} {error : EvaluationError}
    (h : node.MayFail nodes context error) (hinputs : node.inputs = []) :
    node.isProvider = true := by
  cases h with
  | noSource hprovider => exact hprovider
  | noObject hprovider => exact hprovider
  | noSchema _ second _ hinput =>
      rw [hinputs] at hinput
      cases hinput

variable [SchemaEngine]

theorem meaning_of_no_source (hprovider : node.isProvider = true)
    (hsource : context.source = none) :
    node.meaning context now inputs = .error (.sourceMissing node.id) := by
  rcases exists_path_of_isProvider hprovider with ⟨path, hkind⟩
  simp only [meaning, hkind, hsource]

theorem meaning_of_no_object (hprovider : node.isProvider = true) {source : Document}
    (hsource : context.source = some source) (hobject : source.isObject = false) :
    node.meaning context now inputs = .error (.sourceNotObject node.id source) := by
  rcases exists_path_of_isProvider hprovider with ⟨path, hkind⟩
  simp only [meaning, hkind, hsource]
  cases source with
  | object members => cases hobject
  | _ => rfl

end Node

/-! ## Nodes at fault -/

namespace Graph

variable {graph : Graph} {context : Context} {now : Timestamp}
  {hreads : WellFounded graph.Reads}

variable [SchemaEngine]

/-- What a node with a value depends on has values too. -/
theorem exists_reading_of_transGen {source id : NodeId} (h : TransGen graph.Reads source id)
    {value : Option Value} (hvalue : graph.reading context now hreads id = .ok value) :
    ∃ found, graph.reading context now hreads source = .ok found := by
  have hstep : ∀ {input id : NodeId} {value : Option Value}, graph.Reads input id →
      graph.reading context now hreads id = .ok value →
        ∃ found, graph.reading context now hreads input = .ok found := by
    rintro input id value ⟨node, hnode, hinput⟩ hvalue
    rcases exists_values_of_reading_eq_ok hnode hvalue with ⟨values, hvalues, -⟩
    rcases List.mem_iff_getElem?.1 hinput with ⟨place, hplace⟩
    rcases List.getElem?_eq_some_iff.1 hplace with ⟨hlt, rfl⟩
    exact ⟨_, hvalues.get hlt (hvalues.length_eq ▸ hlt)⟩
  induction h generalizing value with
  | single hedge => exact hstep hedge hvalue
  | tail _ hedge ih =>
      rcases hstep hedge hvalue with ⟨found, hfound⟩
      exact ih hfound

end Graph

namespace Pass

variable [SchemaEngine] {pass : Pass} {cache : SchemaCache} {nodes : List Node}
  {hreads : WellFounded pass.graph.Reads} {error : EvaluationError}

/-- The node has no value, although all that it depends on has one. -/
def AtFault (pass : Pass) (hreads : WellFounded pass.graph.Reads) (node : Node)
    (error : EvaluationError) : Prop :=
  (∀ source, TransGen pass.graph.Reads source node.id →
      ∃ value, pass.graph.reading pass.context pass.now hreads source = .ok value) ∧
    pass.graph.reading pass.context pass.now hreads node.id = .error error

/-- A node is at fault exactly when its inputs have values and it means an error on them. -/
theorem atFault_iff_fails (hbuild : Graph.build nodes = .ok pass.graph) {node : Node}
    (hnode : node ∈ nodes) : pass.AtFault hreads node error ↔ pass.Fails hreads node error := by
  have hfind := (Graph.node?_eq_some_iff hbuild).2 ⟨hnode, rfl⟩
  constructor
  · rintro ⟨hdepends, herror⟩
    have hinputs : ∀ input ∈ node.inputs, ∃ value,
        pass.graph.reading pass.context pass.now hreads input = .ok value :=
      fun input hinput => hdepends input (.single ⟨node, hfind, hinput⟩)
    rcases Graph.exists_forall₂_iff.2 hinputs with ⟨values, hvalues⟩
    rw [Graph.reading_eq_meaning hfind hvalues] at herror
    exact ⟨values, hvalues, herror⟩
  · intro h
    refine ⟨fun source hsource => ?_, Evaluator.reading_of_fails hbuild hnode h⟩
    rcases h with ⟨values, hvalues, -⟩
    rcases TransGen.tail'_iff.1 hsource with ⟨input, hreach, other, hother, hinput⟩
    cases hfind.symm.trans hother
    rcases Graph.exists_forall₂_iff.1 ⟨values, hvalues⟩ input hinput with ⟨value, hvalue⟩
    rcases reflTransGen_iff_eq_or_transGen.1 hreach with rfl | htrans
    · exact ⟨value, hvalue⟩
    · exact Graph.exists_reading_of_transGen htrans hvalue

/-! ## The first failure -/

/-- Visits that fail go well up to some slot and fail there. -/
theorem exists_failing_visit {slots : List Nat} {progress : Progress}
    (h : (pass.runSlots slots progress cache).1 = .error error) :
    ∃ front slot back reached known, slots = front ++ slot :: back ∧
      pass.runSlots front progress cache = (.ok reached, known) ∧
        (pass.visit slot reached known).1 = .error error := by
  induction slots generalizing progress cache with
  | nil => cases h
  | cons slot rest ih =>
      unfold runSlots at h
      split at h
      · rename_i failure next hvisit
        refine ⟨[], slot, rest, progress, cache, rfl, rfl, ?_⟩
        rw [hvisit]
        exact h
      · rename_i following next hvisit
        rcases ih h with ⟨front, other, back, reached, known, rfl, hfront, hfails⟩
        refine ⟨slot :: front, other, back, reached, known, rfl, ?_, hfails⟩
        rw [runSlots, hvisit]
        exact hfront

/-- A pass that fails reports a node at fault; before it in the order all nodes have values. -/
theorem exists_front_of_run_eq_error (hreads : WellFounded pass.graph.Reads)
    (hbuild : Graph.build nodes = .ok pass.graph) (hcycle : pass.graph.order.hasCycle = false)
    (hsound : cache.Sound) (h : (pass.run cache).1 = .error error) :
    ∃ front slot back node, (TopologicalOrder.ofNodes nodes).sorted = front ++ slot :: back ∧
      nodes[slot]? = some node ∧ pass.AtFault hreads node error ∧
        ∀ other ∈ front, ∀ otherNode, nodes[other]? = some otherNode → ∃ value,
          pass.graph.reading pass.context pass.now hreads otherNode.id = .ok value := by
  rw [run, hcycle, Graph.order_of_build hbuild] at h
  rw [Graph.order_of_build hbuild] at hcycle
  have horders := TopologicalOrder.orders_sorted hcycle
  rcases exists_failing_visit h with ⟨front, slot, back, reached, known, hsorted, hfront, hfails⟩
  have hmem : ∀ other ∈ front ++ [slot], other < nodes.length := by
    intro other hother
    refine (horders.mem_iff other).1 ?_
    rw [hsorted]
    rcases List.mem_append.1 hother with hbefore | hlast
    · exact List.mem_append_left _ hbefore
    · rw [List.mem_singleton.1 hlast]
      simp
  have hafter : ∀ before other after, [] ++ front = before ++ other :: after →
      ∀ source, Wiring.Feeds nodes source other → source ∈ before := by
    intro before other after hsplit
    refine horders.after before other (after ++ slot :: back) ?_
    rw [hsorted, ← List.nil_append front, hsplit]
    simp
  have hsettles := settles_runSlots hbuild
    (fun other hother => hmem other (List.mem_append_left _ hother)) hafter (agrees_start hreads)
    hsound
  have hknown := sound_runSlots pass hsound front (Progress.start pass.graph.size)
  rw [hfront] at hsettles hknown
  have hnode := List.getElem?_eq_getElem (hmem slot (by simp))
  have hfault := (settles_visit hbuild hknown hsettles hnode
    (horders.after front slot back hsorted)).2 error hfails
  refine ⟨front, slot, back, _, hsorted, hnode,
    (atFault_iff_fails hbuild (List.mem_of_getElem? hnode)).2 hfault, ?_⟩
  intro other hother otherNode hotherNode
  refine ⟨_, hsettles.value other hother otherNode ?_⟩
  rw [Graph.nodes_of_build hbuild]
  exact hotherNode

end Pass

/-! ## The shallowest cause -/

namespace Evaluator

open TriggerGraph.Graph Wiring

section AnyEngine

variable [SchemaEngine] {nodes : List Node} {graph : Graph} {evaluator : Evaluator}
  {context : Context} {now : Timestamp} {error : EvaluationError}

/-- An evaluation that fails on a node has failed in its pass. -/
theorem run_eq_error_of_evaluate (hbuild : build nodes = .ok graph)
    (hsound : evaluator.schemas.Sound)
    (h : (evaluator.evaluate graph context now).1 = .error error) {id : NodeId}
    (hid : error.node? = some id) :
    (Pass.run ⟨graph, context, now⟩ evaluator.schemas).1 = .error error := by
  cases hrun : (Pass.run ⟨graph, context, now⟩ evaluator.schemas).1 with
  | error failure => simpa [evaluate, hrun, Except.bind] using h
  | ok progress =>
      have hlost : ∀ final, (evaluator.evaluate graph context now).1 ≠
          .error (.verdictLost final) := evaluate_ne_verdictLost hbuild hsound
      have hprogress : Outcome.ofProgress graph progress = .error error := by
        simpa [evaluate, hrun, Except.bind] using h
      unfold Outcome.ofProgress at hprogress
      split at hprogress
      · cases hprogress
        cases hid
      · split at hprogress
        · cases hprogress
        · cases hprogress
          exact absurd h (hlost _)

/-- The reported node is at fault, and none that is at fault may stand before it. -/
theorem exists_fault_of_evaluate (hbuild : build nodes = .ok graph)
    (hcycle : graph.order.hasCycle = false) (hreads : WellFounded graph.Reads)
    (hsound : evaluator.schemas.Sound)
    (h : (evaluator.evaluate graph context now).1 = .error error) {id : NodeId}
    (hid : error.node? = some id) :
    ∃ slot node, nodes[slot]? = some node ∧ Pass.AtFault ⟨graph, context, now⟩ hreads node error ∧
      ∀ other otherNode otherError, nodes[other]? = some otherNode →
        Pass.AtFault ⟨graph, context, now⟩ hreads otherNode otherError →
          depth nodes slot ≤ depth nodes other ∧ (depth nodes other = 0 → slot ≤ other) := by
  have hrun := run_eq_error_of_evaluate hbuild hsound h hid
  rcases Pass.exists_front_of_run_eq_error hreads hbuild hcycle hsound hrun with
    ⟨front, slot, back, node, hsorted, hnode, hfault, hvalues⟩
  rw [order_of_build hbuild] at hcycle
  have hascending := TopologicalOrder.pairwise_precedes_sorted hcycle
  rw [hsorted] at hascending
  have hbehind := (List.pairwise_cons.1 (List.pairwise_append.1 hascending).2.1).1
  refine ⟨slot, node, hnode, hfault, ?_⟩
  intro other otherNode otherError hother hotherFault
  have hmem := TopologicalOrder.hasCycle_eq_false_iff_forall_mem.1 hcycle other
    (List.getElem?_eq_some_iff.1 hother).1
  rw [hsorted, List.mem_append, List.mem_cons] at hmem
  rcases hmem with hfront | rfl | hback
  · rcases hvalues other hfront otherNode hother with ⟨value, hvalue⟩
    cases hvalue.symm.trans hotherFault.2
  · exact ⟨Nat.le_refl _, fun _ => Nat.le_refl _⟩
  · have hprecedes := hbehind other hback
    exact ⟨hprecedes.1, fun hzero => Nat.le_of_lt (hprecedes.2 hzero)⟩

/-! ## Passes without a source -/

omit [SchemaEngine] in
/-- In a built graph the slots of depth zero are those of the nodes without inputs. -/
theorem depth_eq_zero_iff_inputs (hbuild : build nodes = .ok graph)
    (hcycle : graph.order.hasCycle = false) {slot : Nat} {node : Node}
    (hnode : nodes[slot]? = some node) : depth nodes slot = 0 ↔ node.inputs = [] := by
  rw [order_of_build hbuild] at hcycle
  rw [depth_eq_zero_iff hcycle (List.getElem?_eq_some_iff.1 hnode).1,
    List.eq_nil_iff_forall_not_mem]
  constructor
  · intro hnone input hinput
    rcases (isOk_build_iff.1 ⟨graph, hbuild⟩).2 node (List.mem_of_getElem? hnode) input hinput with
      ⟨source, hsource⟩
    exact hnone source ⟨node, hnode, input, hinput, hsource⟩
  · rintro hnone source ⟨other, hother, input, hinput, -⟩
    cases hnode.symm.trans hother
    exact hnone input hinput

/-- When all providers of an accepted list fail, each with its own error, the first one without
inputs is blamed: nothing else without inputs can fail. -/
theorem evaluate_of_failing_providers {declared : Nat}
    (haccepted : Validation.validate nodes declared = []) (hbuild : build nodes = .ok graph)
    (hsound : evaluator.schemas.Sound) (blame : NodeId → EvaluationError)
    (hproviders : ∀ (node : Node) (inputs : List (Node × Option Value)),
      node.isProvider = true → node.meaning context now inputs = .error (blame node.id))
    {provider : Node}
    (hfirst : nodes.find? (fun node => node.isProvider && node.inputs.isEmpty) = some provider) :
    (evaluator.evaluate graph context now).1 = .error (blame provider.id) := by
  have hcycle : graph.order.hasCycle = false := by
    rw [order_of_build hbuild]
    exact Validation.hasCycle_of_accepted haccepted
  have hreads := wellFounded_reads hbuild hcycle
  rcases List.find?_eq_some_iff_getElem.1 hfirst with ⟨hprovider, place, hlt, hplace, hearlier⟩
  rw [Bool.and_eq_true, List.isEmpty_iff] at hprovider
  have hnode : nodes[place]? = some provider := List.getElem?_eq_some_iff.2 ⟨hlt, hplace⟩
  have hmem := List.mem_of_getElem? hnode
  have hfault : Pass.AtFault ⟨graph, context, now⟩ hreads provider (blame provider.id) := by
    refine (Pass.atFault_iff_fails hbuild hmem).2 ⟨[], ?_, hproviders _ _ hprovider.1⟩
    rw [hprovider.2]
    exact List.Forall₂.nil
  cases hresult : (evaluator.evaluate graph context now).1 with
  | ok outcome =>
      have hvalue := reading_of_evaluate hbuild hcycle hreads hsound hresult provider.id
      cases hvalue.symm.trans hfault.2
  | error error =>
      rcases fails_of_evaluate_eq_error hbuild hcycle hreads hsound
        (Validation.exists_final_of_accepted haccepted) hresult with ⟨failed, hfailed, hfails⟩
      have hnamed := (Validation.mayFail_of_fails haccepted hbuild hfailed hfails).1
      rcases exists_fault_of_evaluate hbuild hcycle hreads hsound hresult hnamed with
        ⟨slot, node, hslot, hblamed, hshallowest⟩
      rcases hshallowest place provider _ hnode hfault with ⟨hdepth, hearliest⟩
      have hzero := (depth_eq_zero_iff_inputs hbuild hcycle hnode).2 hprovider.2
      have hinputs := (depth_eq_zero_iff_inputs hbuild hcycle hslot).1 (by omega)
      have hown := (Pass.atFault_iff_fails hbuild (List.mem_of_getElem? hslot)).1 hblamed
      have hisProvider : node.isProvider = true :=
        (Validation.mayFail_of_fails haccepted hbuild (List.mem_of_getElem? hslot)
          hown).2.isProvider_of_no_inputs hinputs
      have hsame : slot = place := by
        refine Nat.le_antisymm (hearliest hzero) (Nat.le_of_not_lt fun hbefore => ?_)
        have hnot := hearlier slot hbefore
        rw [List.getElem?_eq_some_iff] at hslot
        rcases hslot with ⟨_, rfl⟩
        simp [hisProvider, hinputs] at hnot
      subst hsame
      cases hslot.symm.trans hnode
      exact congrArg _ (Except.error.inj (hblamed.2.symm.trans hfault.2))

/-- A graph without a cycle is ordered by depth, the length of the longest chain of inputs below
a node.  When evaluation fails on a node, the error reported is that of a node at fault, no node
at fault is less deep, and if some are of depth zero, it is the first of these in the list.  So
a compiled graph without a source, or with one that is no object, fails on the first provider
that has no inputs. -/
theorem failure_is_shallowest (hbuild : build nodes = .ok graph)
    (hcycle : graph.order.hasCycle = false) (hreachable : evaluator.Reachable)
    (context : Context) (now : Timestamp) :
    (∀ slot < nodes.length,
        IsGreatest {length | Chain nodes length slot} (depth nodes slot)) ∧
      graph.order.sorted.Pairwise (fun a b => depth nodes a ≤ depth nodes b) ∧
      (∀ error id, (evaluator.evaluate graph context now).1 = .error error →
        error.node? = some id →
          let AtFault := Pass.AtFault ⟨graph, context, now⟩ (wellFounded_reads hbuild hcycle)
          ∃ slot node, nodes[slot]? = some node ∧ AtFault node error ∧
            ∀ other otherNode otherError, nodes[other]? = some otherNode →
              AtFault otherNode otherError →
                depth nodes slot ≤ depth nodes other ∧ (depth nodes other = 0 → slot ≤ other)) ∧
      ∀ definition, compile definition = .ok graph → ∀ provider,
        nodes.find? (fun node => node.isProvider && node.inputs.isEmpty) = some provider →
          (context.source = none →
            (evaluator.evaluate graph context now).1 = .error (.sourceMissing provider.id)) ∧
          ∀ source, context.source = some source → source.isObject = false →
            (evaluator.evaluate graph context now).1 =
              .error (.sourceNotObject provider.id source) := by
  have hsound := hreachable.sound
  have hacyclic := hcycle
  rw [order_of_build hbuild] at hacyclic
  refine ⟨fun slot => isGreatest_depth hacyclic, ?_, ?_, ?_⟩
  · rw [order_of_build hbuild]
    exact (TopologicalOrder.pairwise_precedes_sorted hacyclic).imp And.left
  · intro error id h hid
    exact exists_fault_of_evaluate hbuild hcycle (wellFounded_reads hbuild hcycle) hsound h hid
  · intro definition hcompile provider hfirst
    rcases compile_eq_ok_iff.1 hcompile with ⟨haccepted, hdefinition⟩
    have hnodes : definition.nodes = nodes :=
      (nodes_of_build hdefinition).symm.trans (nodes_of_build hbuild)
    rw [hnodes] at haccepted
    constructor
    · intro hsource
      exact evaluate_of_failing_providers haccepted hbuild hsound .sourceMissing
        (fun node inputs hprovider => Node.meaning_of_no_source hprovider hsource) hfirst
    · intro source hsource hobject
      exact evaluate_of_failing_providers haccepted hbuild hsound (.sourceNotObject · source)
        (fun node inputs hprovider => Node.meaning_of_no_object hprovider hsource hobject) hfirst

end AnyEngine

/-- Two nodes at fault, the deeper one first in the list: a check against a null schema and a
final node without a verdict. -/
def lopsided : List Node :=
  [.logic 1 .matchesSchema [2, 3], .logic 2 .not [4], .constant 3 .null,
    .constant 4 (.bool true), .final 5 (some 3)]

/-- The lopsided list with its inputs resolved and its order. -/
def lopsidedGraph : Graph :=
  ⟨lopsided, [(5, 4), (4, 3), (3, 2), (2, 1), (1, 0)],
    [[1, 2], [3], [], [], [2]], ⟨[2, 3, 4, 1, 0], false, []⟩⟩

/-- Two providers that are watched in the other order. -/
def pair : List Node :=
  [.final 5 (some 4), .config 4 Detection.anyChange [2, 3], .provider 3 "source.b",
    .provider 2 "source.a"]

/-- The pair with its inputs resolved and its order. -/
def pairGraph : Graph :=
  ⟨pair, [(2, 3), (3, 2), (4, 1), (5, 0)], [[1], [3, 2], [], []], ⟨[2, 3, 1, 0], false, []⟩⟩

section BooleanSchemas

attribute [local instance] SchemaEngine.booleans

/-- Of the lopsided list the final node is to blame, of the pair the provider listed first. -/
theorem failures_of_lopsided_and_pair :
    (∃ hreads slot node, lopsided[slot]? = some node ∧
      Pass.AtFault ⟨lopsidedGraph, .empty, 7⟩ hreads node (.verdictNotBoolean 5 none) ∧
        ∀ other otherNode otherError, lopsided[other]? = some otherNode →
          Pass.AtFault ⟨lopsidedGraph, .empty, 7⟩ hreads otherNode otherError →
            depth lopsided slot ≤ depth lopsided other ∧
              (depth lopsided other = 0 → slot ≤ other)) ∧
      (fresh.evaluate pairGraph .empty 7).1 = .error (.sourceMissing 3) ∧
      (fresh.evaluate pairGraph (.ofSource (.bool true)) 7).1 =
        .error (.sourceNotObject 3 (.bool true)) := by
  have hfresh : fresh.Reachable := .made SchemaCache.defaultCapacity fun _ => 0
  have hlopsided : build lopsided = .ok lopsidedGraph := by rfl
  have hpair : build pair = .ok pairGraph := by rfl
  have hcompile : compile (GraphDefinition.ofNodes pair) = .ok pairGraph := by rfl
  have hverdict : (fresh.evaluate lopsidedGraph .empty 7).1 =
      .error (.verdictNotBoolean 5 none) := by rfl
  refine ⟨?_, ?_, ?_⟩
  · exact ⟨wellFounded_reads hlopsided rfl,
      (failure_is_shallowest hlopsided rfl hfresh .empty 7).2.2.1 _ 5 hverdict rfl⟩
  · exact ((failure_is_shallowest hpair rfl hfresh .empty 7).2.2.2 _ hcompile _ rfl).1 rfl
  · exact ((failure_is_shallowest hpair rfl hfresh (.ofSource (.bool true)) 7).2.2.2 _ hcompile _
      rfl).2 _ rfl rfl

end BooleanSchemas

end Evaluator

end TriggerGraph
