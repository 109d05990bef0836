import TriggerGraph.Proofs.Evaluation.Typing
import TriggerGraph.Proofs.Schema.Cache

/-!
# The pass agrees with the reading

A pass keeps its results by slot and visits the slots in order.  Every input of a slot
comes before it, so what the pass reads there is the value of that input; by induction
along the order each result is the value of its node.  The schema cache does not show,
as long as it is sound, and it is sound for every evaluator that can be reached.

Main results:

- Theorem `Evaluator.Reachable.sound`: the cache of a reachable evaluator is sound.
- Theorem `Pass.calculate_of_sound`: over a sound cache a node yields what it means.
- Theorem `Pass.settles_run`: a pass ends with the values of all nodes, or with the
  error of a node whose inputs have values.
- Theorem `Evaluator.evaluate_agrees_with_reading`: evaluation succeeds exactly when
  each node has a value and there is a final node, and then gives these values.
-/

namespace TriggerGraph

/-- With distinct keys the entry at a place is found by its key. -/
theorem find?_zip_of_nodup {α : Type} {keys : List NodeId} {values : List α}
    (hnodup : keys.Nodup) {place : Nat} {key : NodeId} {value : α}
    (hkey : keys[place]? = some key) (hvalue : values[place]? = some value) :
    (keys.zip values).find? (fun entry => entry.1 = key) = some (key, value) := by
  induction keys generalizing values place with
  | nil => simp at hkey
  | cons head rest ih =>
      cases values with
      | nil => simp at hvalue
      | cons first others =>
          cases place with
          | zero =>
              have hhead : head = key := by simpa using hkey
              have hfirst : first = value := by simpa using hvalue
              simp [hhead, hfirst]
          | succ place =>
              have hrest : rest[place]? = some key := by simpa using hkey
              have hne : head ≠ key := by
                rintro rfl
                exact (List.nodup_cons.1 hnodup).1 (List.mem_of_getElem? hrest)
              have hothers : others[place]? = some value := by simpa using hvalue
              rw [List.zip_cons_cons, List.find?_cons_of_neg (by simpa using hne)]
              exact ih (List.nodup_cons.1 hnodup).2 hrest hothers

/-! ## Evaluators that can be reached -/

section AnyEngine

variable [SchemaEngine]

/-- The evaluators that a new one can turn into, by requests for schemas and by passes
over any graphs; its capacity and the entries it drops are arbitrary. -/
inductive Evaluator.Reachable : Evaluator → Prop
  | made (capacity : Nat) (victim : Nat → Nat) :
      Reachable ⟨SchemaCache.withCapacity capacity victim⟩
  | requested {evaluator : Evaluator} (h : Reachable evaluator) (text : String) :
      Reachable ⟨(evaluator.schemas.request text).2⟩
  | evaluated {evaluator : Evaluator} (h : Reachable evaluator) (graph : Graph)
      (context : Context) (now : Timestamp) :
      Reachable (evaluator.evaluate graph context now).2

namespace Pass

variable {cache : SchemaCache}

/-- Over a sound cache a node yields what it means, and the cache stays sound. -/
theorem calculate_of_sound (pass : Pass) (h : cache.Sound) (node : Node)
    (inputs : List (Node × Option Value)) :
    (pass.calculate node inputs cache).1.map Yield.value =
        node.meaning pass.context pass.now inputs ∧
      (pass.calculate node inputs cache).2.Sound := by
  unfold calculate Node.meaning
  cases hkind : node.kind with
  | constant value => cases value <;> exact ⟨rfl, h⟩
  | schema text => exact ⟨rfl, h⟩
  | provider path =>
      refine ⟨?_, h⟩
      simp only [provided, sourceFor]
      cases hsource : pass.context.source with
      | none => rfl
      | some source => cases source <;> rfl
  | logic operator =>
      rcases Operator.run_of_sound h operator (pass.operands node.id inputs) with ⟨hrun, hsound⟩
      refine ⟨?_, hsound⟩
      dsimp only
      rw [hrun]
      simp only [operands]
      cases operator.apply ⟨node.id, inputs, pass.context.source⟩ <;> rfl
  | config detection => exact ⟨rfl, h⟩
  | final =>
      refine ⟨?_, h⟩
      dsimp only
      unfold verdictOf
      rcases inputs with - | ⟨⟨input, value⟩, rest⟩
      · rfl
      · rcases value with - | value
        · rfl
        · cases value <;> rfl

/-- A visit keeps the cache sound. -/
theorem sound_visit (pass : Pass) (h : cache.Sound) (slot : Nat) (progress : Progress) :
    (pass.visit slot progress cache).2.Sound := by
  unfold visit
  split
  · exact h
  · exact (calculate_of_sound pass h _ _).2

theorem sound_runSlots (pass : Pass) (h : cache.Sound) (slots : List Nat) (progress : Progress) :
    (pass.runSlots slots progress cache).2.Sound := by
  induction slots generalizing progress cache with
  | nil => exact h
  | cons slot rest ih =>
      have hvisit := sound_visit pass h slot progress
      unfold runSlots
      split
      · rename_i error next heq
        rw [heq] at hvisit
        exact hvisit
      · rename_i following next heq
        rw [heq] at hvisit
        exact ih hvisit following

theorem sound_run (pass : Pass) (h : cache.Sound) : (pass.run cache).2.Sound := by
  unfold run
  split
  · exact h
  · exact sound_runSlots pass h _ _

end Pass

/-- The cache of a reachable evaluator is sound. -/
theorem Evaluator.Reachable.sound {evaluator : Evaluator} (h : evaluator.Reachable) :
    evaluator.schemas.Sound := by
  induction h with
  | made capacity victim => exact SchemaCache.sound_withCapacity capacity victim
  | requested _ text ih => exact ih.request_snd text
  | evaluated _ graph context now ih => exact Pass.sound_run _ ih

namespace Pass

/-! ## Along the order -/

variable {pass : Pass} {cache : SchemaCache} {nodes : List Node}
  {hreads : WellFounded pass.graph.Reads}

omit [SchemaEngine] in
/-- The inputs of a slot are wired with the results of their slots. -/
theorem wiredTo_eq (hbuild : Graph.build nodes = .ok pass.graph) {slot : Nat} {node : Node}
    (hnode : nodes[slot]? = some node) (results : Nat → Option Value) :
    pass.wiredTo results slot =
      pass.graph.inputsWith node ((pass.graph.inputsAt slot).map results) := by
  have hall := Graph.forall₂_inputsAt hbuild hnode
  unfold wiredTo Graph.inputsWith
  rw [Graph.nodes_of_build hbuild]
  generalize pass.graph.inputsAt slot = sources at hall
  generalize node.inputs = inputs at hall
  induction hall with
  | nil => rfl
  | @cons input source inputs sources hsource _ ih =>
      rcases (Wiring.slotOf?_eq_some_iff.1 hsource).1 with ⟨other, hother, -⟩
      have hinput : pass.graph.node? input = some other := by
        unfold Graph.node?
        rw [Graph.nodes_of_build hbuild, Graph.slot?_eq hbuild, hsource]
        exact hother
      rw [List.filterMap_cons, List.filterMap_cons, hother, hinput]
      simp [ih]

/-- The results of the given slots are the values of their nodes. -/
structure Agrees (pass : Pass) (hreads : WellFounded pass.graph.Reads) (progress : Progress)
    (done : List Nat) : Prop where
  length_eq : progress.results.length = pass.graph.nodes.length
  value : ∀ slot ∈ done, ∀ node, pass.graph.nodes[slot]? = some node →
    pass.graph.reading pass.context pass.now hreads node.id = .ok (progress.result? slot)

/-- The inputs of the node have values, but on them it means an error. -/
def Fails (pass : Pass) (hreads : WellFounded pass.graph.Reads) (node : Node)
    (error : EvaluationError) : Prop :=
  ∃ values, List.Forall₂ (fun input value =>
      pass.graph.reading pass.context pass.now hreads input = .ok value) node.inputs values ∧
    node.meaning pass.context pass.now (pass.graph.inputsWith node values) = .error error

/-- What a pass over slots should come to: the values of their nodes, or the error of one
of them that fails. -/
def Settles (pass : Pass) (hreads : WellFounded pass.graph.Reads) (slots : List Nat) :
    Except EvaluationError Progress → Prop
  | .ok progress => pass.Agrees hreads progress slots
  | .error error => ∃ slot ∈ slots, ∃ node, pass.graph.nodes[slot]? = some node ∧
      pass.Fails hreads node error

omit [SchemaEngine] in
/-- Recording a slot leaves the results of all others. -/
theorem result?_record {progress : Progress} {slot : Nat} (h : slot < progress.results.length)
    (y : Yield) (other : Nat) :
    (progress.record slot y).result? other =
      if other = slot then y.value else progress.result? other := by
  unfold Progress.result? Progress.record
  rw [List.getElem?_set]
  by_cases hother : other = slot
  · subst hother
    simp [h]
  · have hne : ¬ slot = other := fun heq => hother heq.symm
    simp [hother, hne]

/-- A visited slot yields what its node gives on the results of its input slots. -/
theorem visit_fst_eq (hbuild : Graph.build nodes = .ok pass.graph) {slot : Nat} {node : Node}
    (hnode : nodes[slot]? = some node) (progress : Progress) :
    (pass.visit slot progress cache).1 =
      (pass.calculate node (pass.graph.inputsWith node
        ((pass.graph.inputsAt slot).map progress.result?)) cache).1.map
          (progress.record slot) := by
  have hnodes := Graph.nodes_of_build hbuild
  simp only [visit, hnodes, hnode, wiredTo_eq hbuild hnode]

/-- When all inputs of a slot are done, their results are the values of its inputs. -/
theorem Agrees.forall₂_inputs (hbuild : Graph.build nodes = .ok pass.graph)
    {progress : Progress} {done : List Nat} (h : pass.Agrees hreads progress done)
    {slot : Nat} {node : Node} (hnode : nodes[slot]? = some node)
    (hinputs : ∀ source, Wiring.Feeds nodes source slot → source ∈ done) :
    List.Forall₂ (fun input value =>
        pass.graph.reading pass.context pass.now hreads input = .ok value)
      node.inputs ((pass.graph.inputsAt slot).map progress.result?) := by
  have hall := (List.forall₂_and_left _ _).2
    ⟨fun input hinput => hinput, Graph.forall₂_inputsAt hbuild hnode⟩
  rw [List.forall₂_map_right_iff]
  refine hall.imp ?_
  rintro input source ⟨hinput, hsource⟩
  rcases (Wiring.slotOf?_eq_some_iff.1 hsource).1 with ⟨other, hother, rfl⟩
  have hdone := hinputs source ⟨node, hnode, other.id, hinput, hsource⟩
  exact h.value source hdone other (by rw [Graph.nodes_of_build hbuild]; exact hother)

/-- Recording the value of one more slot keeps the agreement. -/
theorem Agrees.record {progress : Progress} {done : List Nat}
    (h : pass.Agrees hreads progress done) {slot : Nat} {node : Node}
    (hnode : pass.graph.nodes[slot]? = some node) {y : Yield}
    (hvalue : pass.graph.reading pass.context pass.now hreads node.id = .ok y.value) :
    pass.Agrees hreads (progress.record slot y) (done ++ [slot]) := by
  have hlt : slot < progress.results.length := by
    rw [h.length_eq]
    exact (List.getElem?_eq_some_iff.1 hnode).1
  refine ⟨by simpa [Progress.record] using h.length_eq, ?_⟩
  intro other hother otherNode hotherNode
  rw [result?_record hlt]
  by_cases heq : other = slot
  · subst heq
    cases hnode.symm.trans hotherNode
    simpa using hvalue
  · have hmem : other ∈ done := by simpa [heq] using hother
    simpa [heq] using h.value other hmem otherNode hotherNode

/-- Visiting a slot all of whose inputs are done gives the value of its node or its
error. -/
theorem settles_visit (hbuild : Graph.build nodes = .ok pass.graph) (hsound : cache.Sound)
    {progress : Progress} {done : List Nat} (h : pass.Agrees hreads progress done)
    {slot : Nat} {node : Node} (hnode : nodes[slot]? = some node)
    (hinputs : ∀ source, Wiring.Feeds nodes source slot → source ∈ done) :
    (∀ next, (pass.visit slot progress cache).1 = .ok next →
        pass.Agrees hreads next (done ++ [slot])) ∧
      ∀ error, (pass.visit slot progress cache).1 = .error error →
        pass.Fails hreads node error := by
  let values := (pass.graph.inputsAt slot).map progress.result?
  have hvalues := h.forall₂_inputs hbuild hnode hinputs
  have hfind : pass.graph.node? node.id = some node :=
    (Graph.node?_eq_some_iff hbuild).2 ⟨List.mem_of_getElem? hnode, rfl⟩
  have hmeaning := (calculate_of_sound pass hsound node
    (pass.graph.inputsWith node values)).1
  rw [visit_fst_eq hbuild hnode]
  cases hy : (pass.calculate node (pass.graph.inputsWith node values) cache).1 with
  | error error =>
      rw [hy] at hmeaning
      constructor
      · intro next hnext
        cases hnext
      · intro other hother
        cases hother
        exact ⟨values, hvalues, hmeaning.symm⟩
  | ok y =>
      rw [hy] at hmeaning
      constructor
      · intro next hnext
        cases hnext
        refine h.record (by rw [Graph.nodes_of_build hbuild]; exact hnode) ?_
        rw [Graph.reading_eq_meaning hfind hvalues]
        exact hmeaning.symm
      · intro error herror
        cases herror

/-- A pass over the rest of the order settles when what came before agrees. -/
theorem settles_runSlots (hbuild : Graph.build nodes = .ok pass.graph)
    {slots : List Nat} (hlt : ∀ slot ∈ slots, slot < nodes.length) {done : List Nat}
    (horder : ∀ front slot back, done ++ slots = front ++ slot :: back →
      ∀ source, Wiring.Feeds nodes source slot → source ∈ front)
    {progress : Progress} (h : pass.Agrees hreads progress done) (hsound : cache.Sound) :
    pass.Settles hreads (done ++ slots) (pass.runSlots slots progress cache).1 := by
  induction slots generalizing done progress cache with
  | nil =>
      rw [List.append_nil]
      exact h
  | cons slot rest ih =>
      have hnode := List.getElem?_eq_getElem (hlt slot List.mem_cons_self)
      have hinputs := horder done slot rest rfl
      rcases settles_visit hbuild hsound h hnode hinputs with ⟨hok, herror⟩
      have hnextSound := sound_visit pass hsound slot progress
      unfold runSlots
      split
      · rename_i error next heq
        rw [heq] at herror
        refine ⟨slot, by simp, _, ?_, herror error rfl⟩
        rw [Graph.nodes_of_build hbuild]
        exact hnode
      · rename_i following next heq
        rw [heq] at hok hnextSound
        have hassoc : done ++ slot :: rest = (done ++ [slot]) ++ rest := by simp
        rw [hassoc] at horder ⊢
        exact ih (fun other hother => hlt other (List.mem_cons_of_mem slot hother)) horder
          (hok following rfl) hnextSound

/-- Before the first visit there is nothing to agree on. -/
theorem agrees_start (hreads : WellFounded pass.graph.Reads) :
    pass.Agrees hreads (Progress.start pass.graph.size) [] := by
  refine ⟨by simp [Progress.start, Graph.size], ?_⟩
  intro slot hslot
  simp at hslot

/-- A pass over all slots settles, in whatever order each comes after those that feed it. -/
theorem settles_of_orders (hreads : WellFounded pass.graph.Reads)
    (hbuild : Graph.build nodes = .ok pass.graph) {slots : List Nat}
    (h : TopologicalOrder.Orders nodes slots) (hsound : cache.Sound) :
    pass.Settles hreads slots
      (pass.runSlots slots (Progress.start pass.graph.size) cache).1 := by
  have hafter : ∀ front slot back, [] ++ slots = front ++ slot :: back →
      ∀ source, Wiring.Feeds nodes source slot → source ∈ front := h.after
  exact settles_runSlots hbuild (fun slot => (h.mem_iff slot).1) hafter (agrees_start hreads)
    hsound

/-- A pass over a graph without a cycle settles: it visits every slot. -/
theorem settles_run (hreads : WellFounded pass.graph.Reads)
    (hbuild : Graph.build nodes = .ok pass.graph) (hcycle : pass.graph.order.hasCycle = false)
    (hsound : cache.Sound) :
    pass.Settles hreads (TopologicalOrder.ofNodes nodes).sorted (pass.run cache).1 := by
  rw [run, hcycle, Graph.order_of_build hbuild]
  rw [Graph.order_of_build hbuild] at hcycle
  exact settles_of_orders hreads hbuild (TopologicalOrder.orders_sorted hcycle) hsound

end Pass

/-! ## Outcomes -/

namespace Evaluator

open TriggerGraph.Graph

variable {nodes : List Node} {graph : Graph} {evaluator : Evaluator} {context : Context}
  {now : Timestamp}

/-- What a successful evaluation was made of. -/
theorem evaluate_eq_ok {outcome : Outcome}
    (h : (evaluator.evaluate graph context now).1 = .ok outcome) :
    ∃ progress slot, (Pass.run ⟨graph, context, now⟩ evaluator.schemas).1 = .ok progress ∧
      graph.finalSlot? = some slot ∧ progress.result? slot = some (.bool outcome.verdict) ∧
      outcome = ⟨outcome.verdict, progress.snapshot,
        (graph.nodes.map (·.id)).zip progress.results⟩ := by
  rcases bind_eq_ok_iff.1 h with ⟨progress, hrun, houtcome⟩
  unfold Outcome.ofProgress at houtcome
  split at houtcome
  · cases houtcome
  · rename_i slot hslot
    split at houtcome
    · rename_i verdict hverdict
      cases houtcome
      exact ⟨progress, slot, hrun, hslot, hverdict, rfl⟩
    · cases houtcome

/-- A pass with a verdict succeeds with it. -/
theorem exists_outcome_of_verdict {verdict : Bool}
    (h : evaluator.verdict graph context now = .ok verdict) :
    ∃ outcome, (evaluator.evaluate graph context now).1 = .ok outcome ∧
      outcome.verdict = verdict := by
  unfold Evaluator.verdict at h
  cases houtcome : (evaluator.evaluate graph context now).1 with
  | error error =>
      rw [houtcome] at h
      cases h
  | ok outcome =>
      rw [houtcome] at h
      exact ⟨outcome, rfl, Except.ok.inj h⟩

/-- A finished pass holds at every slot the value of the node there. -/
theorem reading_of_run (hbuild : build nodes = .ok graph)
    (hcycle : graph.order.hasCycle = false) (hreads : WellFounded graph.Reads)
    {cache : SchemaCache} (hsound : cache.Sound) {progress : Progress}
    (hrun : (Pass.run ⟨graph, context, now⟩ cache).1 = .ok progress) {slot : Nat} {node : Node}
    (hnode : nodes[slot]? = some node) :
    slot < progress.results.length ∧
      graph.reading context now hreads node.id = .ok (progress.result? slot) := by
  have hsettles : Pass.Settles ⟨graph, context, now⟩ hreads _ _ :=
    Pass.settles_run hreads hbuild hcycle hsound
  rw [hrun] at hsettles
  have hnodes := nodes_of_build hbuild
  have hlt : slot < nodes.length := (List.getElem?_eq_some_iff.1 hnode).1
  rw [order_of_build hbuild] at hcycle
  have hsorted := TopologicalOrder.hasCycle_eq_false_iff_forall_mem.1 hcycle slot hlt
  constructor
  · rw [hsettles.length_eq, hnodes]
    exact hlt
  · exact hsettles.value slot hsorted node (by rw [hnodes]; exact hnode)

/-- The results of a successful evaluation are the values of the nodes. -/
theorem reading_of_evaluate (hbuild : build nodes = .ok graph)
    (hcycle : graph.order.hasCycle = false) (hreads : WellFounded graph.Reads)
    (hsound : evaluator.schemas.Sound) {outcome : Outcome}
    (h : (evaluator.evaluate graph context now).1 = .ok outcome) (id : NodeId) :
    graph.reading context now hreads id = .ok (outcome.result? id) := by
  rcases evaluate_eq_ok h with ⟨progress, final, hrun, -, -, houtcome⟩
  have hnodes := nodes_of_build hbuild
  cases hfind : graph.node? id with
  | none =>
      have hnone : outcome.results.find? (fun entry => entry.1 = id) = none := by
        rw [houtcome, List.find?_eq_none]
        rintro ⟨key, value⟩ hentry heq
        rcases List.mem_map.1 (List.of_mem_zip hentry).1 with ⟨node, hnode, hkey⟩
        rw [hnodes] at hnode
        have hsome := (node?_eq_some_iff hbuild).2 ⟨hnode, hkey.trans (by simpa using heq)⟩
        rw [hfind] at hsome
        cases hsome
      rw [reading_of_node?_eq_none hfind]
      simp [Outcome.result?, hnone]
  | some node =>
      rcases (node?_eq_some_iff hbuild).1 hfind with ⟨hmem, rfl⟩
      rcases List.mem_iff_getElem?.1 hmem with ⟨slot, hslot⟩
      rcases reading_of_run hbuild hcycle hreads hsound hrun hslot with ⟨hlength, hvalue⟩
      have hkey : (nodes.map (·.id))[slot]? = some node.id := by
        rw [List.getElem?_map, hslot]
        rfl
      have hresult : progress.results[slot]? = some (progress.result? slot) := by
        simp [Progress.result?, hlength]
      have hentry := find?_zip_of_nodup (nodup_of_build hbuild) hkey hresult
      rw [hvalue, houtcome, hnodes]
      simp [Outcome.result?, hentry]

/-- The verdict of a successful evaluation is the value of the first final node. -/
theorem verdict_of_evaluate (hbuild : build nodes = .ok graph)
    (hcycle : graph.order.hasCycle = false) (hreads : WellFounded graph.Reads)
    (hsound : evaluator.schemas.Sound) {outcome : Outcome}
    (h : (evaluator.evaluate graph context now).1 = .ok outcome) :
    ∃ final, nodes.find? Node.isFinal = some final ∧
      graph.reading context now hreads final.id = .ok (some (.bool outcome.verdict)) := by
  rcases evaluate_eq_ok h with ⟨progress, slot, hrun, hslot, hverdict, -⟩
  rw [finalSlot?, nodes_of_build hbuild] at hslot
  rcases List.findIdx?_eq_some_iff_getElem.1 hslot with ⟨hlt, -, -⟩
  have hnode := List.getElem?_eq_getElem hlt
  refine ⟨nodes[slot], ?_, ?_⟩
  · rw [List.find?_eq_bind_findIdx?_getElem?, hslot]
    exact hnode
  · rw [(reading_of_run hbuild hcycle hreads hsound hrun hnode).2, hverdict]

omit [SchemaEngine] in
/-- A graph with a final node has a first one. -/
theorem exists_finalSlot? (hbuild : build nodes = .ok graph)
    (hfinal : ∃ node ∈ nodes, node.isFinal = true) : ∃ slot, graph.finalSlot? = some slot := by
  have hsome : (nodes.findIdx? Node.isFinal).isSome = true := by
    rw [List.findIdx?_isSome, List.any_eq_true]
    exact hfinal
  rw [finalSlot?, nodes_of_build hbuild]
  exact Option.isSome_iff_exists.1 hsome

/-- A finished pass holds a boolean at the slot of the final node. -/
theorem exists_verdict_of_run (hbuild : build nodes = .ok graph)
    (hcycle : graph.order.hasCycle = false) (hreads : WellFounded graph.Reads)
    {cache : SchemaCache} (hsound : cache.Sound) {progress : Progress}
    (hrun : (Pass.run ⟨graph, context, now⟩ cache).1 = .ok progress) {slot : Nat}
    (hslot : graph.finalSlot? = some slot) :
    ∃ verdict, progress.result? slot = some (.bool verdict) := by
  rw [finalSlot?, nodes_of_build hbuild] at hslot
  rcases List.findIdx?_eq_some_iff_getElem.1 hslot with ⟨hlt, hisFinal, -⟩
  have hnode := List.getElem?_eq_getElem hlt
  have hfind := (node?_eq_some_iff hbuild).2 ⟨List.mem_of_getElem? hnode, rfl⟩
  have hvalue := (reading_of_run hbuild hcycle hreads hsound hrun hnode).2
  exact exists_bool_of_reading hfind (Node.outputType_of_verdict (Or.inr hisFinal)) hvalue

/-- A pass fails only on a node that fails. -/
theorem fails_of_run_eq_error (hbuild : build nodes = .ok graph)
    (hcycle : graph.order.hasCycle = false) (hreads : WellFounded graph.Reads)
    {cache : SchemaCache} (hsound : cache.Sound) {error : EvaluationError}
    (hrun : (Pass.run ⟨graph, context, now⟩ cache).1 = .error error) :
    ∃ node ∈ nodes, Pass.Fails ⟨graph, context, now⟩ hreads node error := by
  have hsettles : Pass.Settles ⟨graph, context, now⟩ hreads _ _ :=
    Pass.settles_run hreads hbuild hcycle hsound
  rw [hrun] at hsettles
  rcases hsettles with ⟨slot, -, node, hnode, hfails⟩
  rw [nodes_of_build hbuild] at hnode
  exact ⟨node, List.mem_of_getElem? hnode, hfails⟩

/-- When there is a final node, evaluation fails only on a node that fails. -/
theorem fails_of_evaluate_eq_error (hbuild : build nodes = .ok graph)
    (hcycle : graph.order.hasCycle = false) (hreads : WellFounded graph.Reads)
    (hsound : evaluator.schemas.Sound) (hfinal : ∃ node ∈ nodes, node.isFinal = true)
    {error : EvaluationError} (h : (evaluator.evaluate graph context now).1 = .error error) :
    ∃ node ∈ nodes, Pass.Fails ⟨graph, context, now⟩ hreads node error := by
  cases hrun : (Pass.run ⟨graph, context, now⟩ evaluator.schemas).1 with
  | error other =>
      have heq : other = error := by
        simpa [evaluate, hrun, Except.bind] using h
      subst heq
      exact fails_of_run_eq_error hbuild hcycle hreads hsound hrun
  | ok progress =>
      rcases exists_finalSlot? hbuild hfinal with ⟨slot, hslot⟩
      rcases exists_verdict_of_run hbuild hcycle hreads hsound hrun hslot with
        ⟨verdict, hverdict⟩
      simp [evaluate, hrun, Except.bind, Outcome.ofProgress, hslot, hverdict] at h

/-- A node that fails has no value. -/
theorem reading_of_fails (hbuild : build nodes = .ok graph) {hreads : WellFounded graph.Reads}
    {node : Node} (hnode : node ∈ nodes) {error : EvaluationError}
    (h : Pass.Fails ⟨graph, context, now⟩ hreads node error) :
    graph.reading context now hreads node.id = .error error := by
  rcases h with ⟨values, hinputs, hmeaning⟩
  have hfind := (node?_eq_some_iff hbuild).2 ⟨hnode, rfl⟩
  rw [reading_eq_meaning hfind hinputs]
  exact hmeaning

/-- When each node has a value and there is a final node, evaluation succeeds. -/
theorem exists_outcome_of_readings (hbuild : build nodes = .ok graph)
    (hcycle : graph.order.hasCycle = false) (hreads : WellFounded graph.Reads)
    (hsound : evaluator.schemas.Sound) (hfinal : ∃ node ∈ nodes, node.isFinal = true)
    (hall : ∀ node ∈ nodes, ∃ value, graph.reading context now hreads node.id = .ok value) :
    ∃ outcome, (evaluator.evaluate graph context now).1 = .ok outcome := by
  cases h : (evaluator.evaluate graph context now).1 with
  | ok outcome => exact ⟨outcome, rfl⟩
  | error error =>
      rcases fails_of_evaluate_eq_error hbuild hcycle hreads hsound hfinal h with
        ⟨node, hnode, hfails⟩
      rcases hall node hnode with ⟨value, hvalue⟩
      cases hvalue.symm.trans (reading_of_fails hbuild hnode hfails)

/-- Evaluation of a graph without a cycle succeeds exactly when each node has a value in
the recursive reading and there is a final node.  It then gives for every identity the
value that the reading gives, and the value of the first final node as the verdict. -/
theorem evaluate_agrees_with_reading (hbuild : build nodes = .ok graph)
    (hcycle : graph.order.hasCycle = false) (hreachable : evaluator.Reachable)
    (context : Context) (now : Timestamp) :
    let reading := graph.reading context now (wellFounded_reads hbuild hcycle)
    ((∃ outcome, (evaluator.evaluate graph context now).1 = .ok outcome) ↔
        (∀ node ∈ nodes, ∃ value, reading node.id = .ok value) ∧
          ∃ node ∈ nodes, node.isFinal = true) ∧
      ∀ outcome, (evaluator.evaluate graph context now).1 = .ok outcome →
        (∀ id, reading id = .ok (outcome.result? id)) ∧
          ∃ final, nodes.find? Node.isFinal = some final ∧
            reading final.id = .ok (some (.bool outcome.verdict)) := by
  intro reading
  have hreads := wellFounded_reads hbuild hcycle
  have hsound := hreachable.sound
  refine ⟨⟨?_, ?_⟩, ?_⟩
  · rintro ⟨outcome, h⟩
    refine ⟨fun node _ => ⟨_, reading_of_evaluate hbuild hcycle hreads hsound h node.id⟩, ?_⟩
    rcases verdict_of_evaluate hbuild hcycle hreads hsound h with ⟨final, hfind, -⟩
    exact ⟨final, List.mem_of_find?_eq_some hfind, List.find?_some hfind⟩
  · rintro ⟨hall, hfinal⟩
    cases h : (evaluator.evaluate graph context now).1 with
    | ok outcome => exact ⟨outcome, rfl⟩
    | error error =>
        rcases fails_of_evaluate_eq_error hbuild hcycle hreads hsound hfinal h with
          ⟨node, hnode, hfails⟩
        rcases hall node hnode with ⟨value, hvalue⟩
        have herror := reading_of_fails hbuild hnode hfails
        cases hvalue.symm.trans herror
  · intro outcome h
    exact ⟨reading_of_evaluate hbuild hcycle hreads hsound h,
      verdict_of_evaluate hbuild hcycle hreads hsound h⟩

end Evaluator

end AnyEngine

namespace Evaluator

open TriggerGraph.Graph

/-- Nodes listed before their inputs, with an input that is wired twice and a value that
is used on two ways. -/
def diamond : List Node :=
  [.final 6 (some 5), .logic 5 .or [4, 3, 4], .logic 4 .not [2], .logic 3 .isTrue [2],
    .provider 2 "source.armed", .constant 1 .null, .config 7 Detection.anyChange [2, 1]]

/-- The diamond with its inputs resolved and its order. -/
def diamondGraph : Graph :=
  ⟨diamond, [(7, 6), (1, 5), (2, 4), (3, 3), (4, 2), (5, 1), (6, 0)],
    [[1], [2, 3, 2], [4], [4], [], [], [4, 5]], ⟨[4, 5, 2, 3, 6, 1, 0], false, []⟩⟩

section BooleanSchemas

attribute [local instance] SchemaEngine.booleans

/-- The evaluation of the diamond agrees with its reading. -/
theorem evaluate_agrees_on_diamond :
    ∃ (hbuild : build diamond = .ok diamondGraph)
      (hcycle : diamondGraph.order.hasCycle = false) (outcome : Outcome),
      (fresh.evaluate diamondGraph (.ofSource (.object [("armed", .bool true)])) 5).1 =
          .ok outcome ∧
        ∀ id, diamondGraph.reading (.ofSource (.object [("armed", .bool true)])) 5
          (wellFounded_reads hbuild hcycle) id = .ok (outcome.result? id) := by
  have hbuild : build diamond = .ok diamondGraph := by rfl
  have hcycle : diamondGraph.order.hasCycle = false := by rfl
  have hfresh : fresh.Reachable := .made SchemaCache.defaultCapacity fun _ => 0
  have hagrees := evaluate_agrees_with_reading hbuild hcycle hfresh
    (.ofSource (.object [("armed", .bool true)])) 5
  have hok : (fresh.verdict diamondGraph (.ofSource (.object [("armed", .bool true)])) 5) =
      .ok true := by rfl
  unfold verdict at hok
  cases houtcome : (fresh.evaluate diamondGraph
      (.ofSource (.object [("armed", .bool true)])) 5).1 with
  | error error =>
      rw [houtcome] at hok
      cases hok
  | ok outcome => exact ⟨hbuild, hcycle, outcome, rfl, (hagrees.2 outcome houtcome).1⟩

end BooleanSchemas

end Evaluator

end TriggerGraph
