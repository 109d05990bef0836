import TriggerGraph.Evaluation.Context
import TriggerGraph.Graph.Basic
import TriggerGraph.Operator.Apply

/-!
# One pass over a graph

A pass calculates the slots in the order of the graph.  Results are kept by slot;
a slot that has not been calculated and a slot without a value look the same, and
it is the order that keeps a slot from being read too early.  The first failure
ends the pass; the schema cache keeps what it learned up to there.

Main results:

- Theorem `run_of_cycle`: a graph with a cycle is not evaluated at all.
-/

namespace TriggerGraph

/-- What a node yields: its result, and what it leaves to remember. -/
structure Yield where
  value : Option Value
  remembered : Snapshot

namespace Yield

/-- A result, or none, with nothing to remember. -/
def ofValue? (value : Option Value) : Yield := ⟨value, Snapshot.empty⟩

/-- A result with nothing to remember. -/
def ofValue (value : Value) : Yield := ofValue? (some value)

end Yield

/-- What a pass has calculated so far. -/
structure Progress where
  results : List (Option Value)
  snapshot : Snapshot

namespace Progress

/-- Nothing is calculated yet. -/
def start (slots : Nat) : Progress := ⟨List.replicate slots none, Snapshot.empty⟩

/-- The result of a slot. -/
def result? (progress : Progress) (slot : Nat) : Option Value :=
  progress.results[slot]?.bind id

/-- The progress with one more slot calculated. -/
def record (progress : Progress) (slot : Nat) (y : Yield) : Progress :=
  ⟨progress.results.set slot y.value, progress.snapshot.union y.remembered⟩

end Progress

/-- The parts of a pass that stay the same throughout. -/
structure Pass where
  graph : Graph
  context : Context
  now : Timestamp

namespace Pass

/-! ## Single nodes -/

/-- The source that a provider reads. -/
def sourceFor (pass : Pass) (node : NodeId) : Except EvaluationError Document :=
  match pass.context.source with
  | none => .error (.sourceMissing node)
  | some source => if source.isObject then .ok source else .error (.sourceNotObject node source)

/-- What a provider finds at its path. -/
def provided (pass : Pass) (node : NodeId) (path : String) :
    Except EvaluationError (Option Value) :=
  (pass.sourceFor node).map fun source => source.extract? (Path.relativeToSource path)

/-- The input nodes of a slot with their results, in order. -/
def wiredTo (pass : Pass) (results : Nat → Option Value) (slot : Nat) :
    List (Node × Option Value) :=
  (pass.graph.inputsAt slot).filterMap fun input =>
    pass.graph.nodes[input]?.map fun node => (node, results input)

/-- What the providers among wired inputs observe. -/
def observations (wired : List (Node × Option Value)) : List Detection.Observation :=
  wired.filterMap fun input => input.1.providerPath?.map fun path => (path, input.2)

/-- The operands of the logic node at a slot. -/
def operands (pass : Pass) (node : NodeId) (wired : List (Node × Option Value)) : Operands :=
  ⟨node, wired, pass.context.source⟩

/-- What change detection reports for wired inputs. -/
def report (pass : Pass) (detection : Detection) (wired : List (Node × Option Value)) :
    Detection.Report :=
  detection.detect (observations wired) pass.context.previous pass.now

/-- The verdict that a final node passes on; an unwired one lets everything pass. -/
def verdictOf (node : NodeId) (wired : List (Node × Option Value)) :
    Except EvaluationError Value :=
  match wired with
  | [] => .ok (.bool true)
  | (_, some (.bool verdict)) :: _ => .ok (.bool verdict)
  | (_, other) :: _ => .error (.verdictNotBoolean node (other.map Value.type))

/-- A constant's result; a null is no value. -/
def constantValue : Value → Option Value
  | .null => none
  | v => some v

variable [SchemaEngine]

/-- Calculates a node from the results of its inputs. -/
def calculate (pass : Pass) (node : Node) (wired : List (Node × Option Value))
    (cache : SchemaCache) : Except EvaluationError Yield × SchemaCache :=
  match node.kind with
  | .constant value => (.ok (.ofValue? (constantValue value)), cache)
  | .schema text => (.ok (.ofValue (.string text)), cache)
  | .provider path => ((pass.provided node.id path).map .ofValue?, cache)
  | .logic operator =>
    let ran := operator.run (pass.operands node.id wired) cache
    (ran.1.map .ofValue, ran.2)
  | .config detection =>
    let report := pass.report detection wired
    (.ok ⟨some (.bool report.fired), report.snapshot⟩, cache)
  | .final => ((verdictOf node.id wired).map .ofValue, cache)

/-! ## The pass -/

/-- Calculates the node at a slot and records what it yields. -/
def visit (pass : Pass) (slot : Nat) (progress : Progress) (cache : SchemaCache) :
    Except EvaluationError Progress × SchemaCache :=
  match pass.graph.nodes[slot]? with
  | none => (.ok progress, cache)
  | some node =>
    let calculated := pass.calculate node (pass.wiredTo progress.result? slot) cache
    (calculated.1.map (progress.record slot), calculated.2)

/-- Visits slots in order up to the first failure. -/
def runSlots (pass : Pass) : List Nat → Progress → SchemaCache →
    Except EvaluationError Progress × SchemaCache
  | [], progress, cache => (.ok progress, cache)
  | slot :: rest, progress, cache =>
    match pass.visit slot progress cache with
    | (.error error, cache) => (.error error, cache)
    | (.ok progress, cache) => runSlots pass rest progress cache

/-- The whole pass. -/
def run (pass : Pass) (cache : SchemaCache) : Except EvaluationError Progress × SchemaCache :=
  if pass.graph.order.hasCycle then (.error (.cycle pass.graph.order.cycleIds), cache)
  else pass.runSlots pass.graph.order.sorted (Progress.start pass.graph.size) cache

/-- A graph with a cycle is not evaluated at all. -/
theorem run_of_cycle {pass : Pass} (h : pass.graph.order.hasCycle = true)
    (cache : SchemaCache) :
    pass.run cache = (.error (.cycle pass.graph.order.cycleIds), cache) := by
  simp [run, h]

end Pass

end TriggerGraph
