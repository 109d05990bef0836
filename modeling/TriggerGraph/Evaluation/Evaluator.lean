import TriggerGraph.Evaluation.Pass

/-!
# Evaluation

An evaluator runs passes and keeps compiled schemas from one to the next; nothing
else survives a pass.  A successful pass has a verdict, the result of the final
node, and leaves a snapshot for the next pass.

Main results:

- Theorem `evaluate_of_cycle`: a graph with a cycle fails with the nodes on it.
- Theorem `evaluateNodes_of_build_error`: a list that is no graph fails with the
  reason.
-/

namespace TriggerGraph

/-- What a successful pass leaves. -/
structure Outcome where
  verdict : Bool
  snapshot : Snapshot
  /-- The results of all nodes, in their order. -/
  results : List (NodeId × Option Value)

namespace Outcome

/-- The result of a node; none when it produced no value. -/
def result? (outcome : Outcome) (id : NodeId) : Option Value :=
  (outcome.results.find? fun entry => entry.1 = id).bind (·.2)

/-- The outcome of a finished pass: the first final node gives the verdict. -/
def ofProgress (graph : Graph) (progress : Progress) : Except EvaluationError Outcome :=
  match graph.finalSlot? with
  | none => .error .missingFinalNode
  | some slot =>
    match progress.result? slot with
    | some (.bool verdict) =>
      .ok ⟨verdict, progress.snapshot, (graph.nodes.map (·.id)).zip progress.results⟩
    | _ => .error (.verdictLost ((graph.nodes[slot]?.map (·.id)).getD 0))

end Outcome

variable [SchemaEngine]

/-- Runs passes over graphs. -/
structure Evaluator where
  schemas : SchemaCache

namespace Evaluator

/-- An evaluator that knows no schema yet. -/
def fresh : Evaluator := ⟨SchemaCache.empty⟩

/-- Runs one pass of a graph over a context, and keeps the schemas it compiled. -/
def evaluate (evaluator : Evaluator) (graph : Graph) (context : Context) (now : Timestamp) :
    Except EvaluationError Outcome × Evaluator :=
  let ran := Pass.run ⟨graph, context, now⟩ evaluator.schemas
  (ran.1.bind (Outcome.ofProgress graph), ⟨ran.2⟩)

/-- The verdict of one pass. -/
def verdict (evaluator : Evaluator) (graph : Graph) (context : Context) (now : Timestamp) :
    Except EvaluationError Bool :=
  (evaluator.evaluate graph context now).1.map Outcome.verdict

/-- The verdict of a bare node list, with a graph and an evaluator of its own. -/
def evaluateNodes (nodes : List Node) (context : Context) (now : Timestamp) :
    Except EvaluationError Bool :=
  match Graph.build nodes with
  | .error error => .error (.graphNotBuilt error)
  | .ok graph => fresh.verdict graph context now

/-- A graph with a cycle fails with the nodes on it. -/
theorem evaluate_of_cycle {graph : Graph} (h : graph.order.hasCycle = true)
    (evaluator : Evaluator) (context : Context) (now : Timestamp) :
    (evaluator.evaluate graph context now).1 = .error (.cycle graph.order.cycleIds) := by
  simp [evaluate, Pass.run, h, Except.bind]

/-- A list that is no graph fails with the reason. -/
theorem evaluateNodes_of_build_error {nodes : List Node} {error : NodeError}
    (h : Graph.build nodes = .error error) (context : Context) (now : Timestamp) :
    evaluateNodes nodes context now = .error (.graphNotBuilt error) := by
  simp [evaluateNodes, h]

end Evaluator

end TriggerGraph
