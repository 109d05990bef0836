import TriggerGraph.Proofs.Evaluation.Agreement

/-!
# Results have their declared types

Graphs are wired by the types that their nodes are declared with, before there is any data.
Whether a graph was checked or not, a pass keeps to these declarations: what a node results
in is of its declared type, however many inputs it has and whatever they are.  So a finished
pass always ends in a boolean verdict, and the check for it can never fail.

Main results:

- Theorem `Evaluator.type_of_result`: a node results in its declared type.
- Theorem `Evaluator.evaluate_ne_verdictLost`: no pass loses its verdict.
- Theorem `Evaluator.results_have_declared_types`: what declarations promise of a pass.
-/

namespace TriggerGraph

/-! ## Single nodes -/

namespace Operator

variable {operands : Operands} {id : NodeId}

/-- Every operator declares what it returns. -/
theorem returnType_ne_any (operator : Operator) : operator.returnType ≠ .any := by
  rcases returnType_cases operator with htype | htype
  · rw [htype]
    decide
  · rw [htype]
    decide

variable [SchemaEngine]

/-- No operator loses a verdict. -/
theorem apply_ne_verdictLost (operator : Operator) :
    operator.apply operands ≠ .error (.verdictLost id) := by
  intro h
  rcases apply_eq_error h with ⟨-, hschema⟩ | ⟨-, hlookup⟩
  · rcases applySchema_eq_error hschema with ⟨found, herror, -⟩ | ⟨text, reason, herror, -⟩
    · cases herror
    · cases herror
  · unfold lookup at hlookup
    split at hlookup
    · cases hlookup
    · split at hlookup <;> cases hlookup

end Operator

namespace Node

variable {node : Node}

/-- The kinds of node that never fail to produce a value: all but constants, which may be
null, and providers, which may find nothing. -/
def alwaysProduces (node : Node) : Bool :=
  match node.kind with
  | .constant _ => false
  | .provider _ => false
  | .logic _ => true
  | .schema _ => true
  | .config _ => true
  | .final => true

/-- A node that always produces declares what. -/
theorem outputType_ne_any (h : node.alwaysProduces = true) : node.outputType ≠ .any := by
  unfold alwaysProduces at h
  unfold outputType
  cases hkind : node.kind with
  | constant value => simp [hkind] at h
  | provider path => simp [hkind] at h
  | logic operator => exact operator.returnType_ne_any
  | schema text => simp
  | config detection => simp
  | final => simp

variable [SchemaEngine]

/-- What a node means is never a lost verdict. -/
theorem meaning_ne_verdictLost (node : Node) (context : Context) (now : Timestamp)
    (inputs : List (Node × Option Value)) (id : NodeId) :
    node.meaning context now inputs ≠ .error (.verdictLost id) := by
  intro h
  unfold meaning at h
  cases hkind : node.kind with
  | constant value =>
      rw [hkind] at h
      cases value <;> cases h
  | provider path =>
      rw [hkind] at h
      dsimp only at h
      split at h <;> cases h
  | logic operator =>
      rw [hkind] at h
      exact operator.apply_ne_verdictLost (Operator.map_eq_error_iff.1 h)
  | schema text =>
      rw [hkind] at h
      cases h
  | config detection =>
      rw [hkind] at h
      cases h
  | final =>
      rw [hkind] at h
      dsimp only at h
      split at h <;> cases h

end Node

/-! ## Passes -/

/-- A pass that ends is over a graph without a cycle. -/
theorem Pass.hasCycle_of_run [SchemaEngine] {pass : Pass} {cache : SchemaCache}
    {progress : Progress} (h : (pass.run cache).1 = .ok progress) :
    pass.graph.order.hasCycle = false := by
  cases hcycle : pass.graph.order.hasCycle with
  | false => rfl
  | true =>
      rw [run_of_cycle hcycle] at h
      cases h

namespace Evaluator

open TriggerGraph.Graph

section AnyEngine

variable [SchemaEngine] {nodes : List Node} {graph : Graph} {evaluator : Evaluator}
  {context : Context} {now : Timestamp} {outcome : Outcome}

/-- An evaluation that succeeds is of a graph without a cycle. -/
theorem hasCycle_of_evaluate (h : (evaluator.evaluate graph context now).1 = .ok outcome) :
    graph.order.hasCycle = false := by
  rcases evaluate_eq_ok h with ⟨progress, slot, hrun, -⟩
  exact Pass.hasCycle_of_run hrun

section Succeeded

variable (hbuild : build nodes = .ok graph) (hsound : evaluator.schemas.Sound)
  (h : (evaluator.evaluate graph context now).1 = .ok outcome) {node : Node}
  (hnode : node ∈ nodes)

include hbuild hsound h hnode

/-- A node results in its declared type, unless it is declared with no type in particular. -/
theorem type_of_result :
    node.outputType = .any ∨
      ∃ value, outcome.result? node.id = some value ∧ value.type = node.outputType := by
  have hcycle := hasCycle_of_evaluate h
  have hreads := wellFounded_reads hbuild hcycle
  exact type_of_reading ((node?_eq_some_iff hbuild).2 ⟨hnode, rfl⟩)
    (reading_of_evaluate hbuild hcycle hreads hsound h node.id)

/-- What is declared boolean results in a boolean. -/
theorem exists_bool_of_result (htype : node.outputType = .boolean) :
    ∃ b, outcome.result? node.id = some (.bool b) := by
  have hcycle := hasCycle_of_evaluate h
  have hreads := wellFounded_reads hbuild hcycle
  exact exists_bool_of_reading ((node?_eq_some_iff hbuild).2 ⟨hnode, rfl⟩) htype
    (reading_of_evaluate hbuild hcycle hreads hsound h node.id)

end Succeeded

/-- No pass loses its verdict: it fails before its end, or ends with a boolean. -/
theorem evaluate_ne_verdictLost (hbuild : build nodes = .ok graph)
    (hsound : evaluator.schemas.Sound) (id : NodeId) :
    (evaluator.evaluate graph context now).1 ≠ .error (.verdictLost id) := by
  intro h
  cases hrun : (Pass.run ⟨graph, context, now⟩ evaluator.schemas).1 with
  | error error =>
      have heq : error = .verdictLost id := by
        simpa [evaluate, hrun, Except.bind] using h
      cases hcycle : graph.order.hasCycle with
      | true =>
          rw [evaluate_of_cycle hcycle] at h
          cases h
      | false =>
          -- the pass ended early on a node, and no node means this error
          have hreads := wellFounded_reads hbuild hcycle
          rcases fails_of_run_eq_error hbuild hcycle hreads hsound hrun with
            ⟨node, -, values, -, hmeaning⟩
          rw [heq] at hmeaning
          exact node.meaning_ne_verdictLost _ _ _ id hmeaning
  | ok progress =>
      have hcycle := Pass.hasCycle_of_run hrun
      cases hslot : graph.finalSlot? with
      | none => simp [evaluate, hrun, Except.bind, Outcome.ofProgress, hslot] at h
      | some slot =>
          rcases exists_verdict_of_run hbuild hcycle (wellFounded_reads hbuild hcycle) hsound
            hrun hslot with ⟨verdict, hverdict⟩
          simp [evaluate, hrun, Except.bind, Outcome.ofProgress, hslot, hverdict] at h

/-! ## What declarations promise -/

/-- The results of a pass keep to what the nodes are declared with. -/
structure KeepsDeclarations (nodes : List Node) (outcome : Outcome) : Prop where
  /-- A result is of a type that the declared one accepts. -/
  accepted : ∀ node ∈ nodes, ∀ value, outcome.result? node.id = some value →
    node.outputType.accepts value.type = true
  /-- Only constants and providers may be without a result. -/
  present : ∀ node ∈ nodes, node.alwaysProduces = true →
    ∃ value, outcome.result? node.id = some value
  /-- What is declared boolean has a boolean result. -/
  boolean : ∀ node ∈ nodes, node.outputType = .boolean →
    ∃ b, outcome.result? node.id = some (.bool b)

/-- Whatever graph was built and whatever the data, the results of a successful pass keep to
what the nodes are declared with.  A pass over all slots has a boolean at the final node, so
no pass at all loses its verdict, whether it succeeds or fails. -/
theorem results_have_declared_types (hbuild : build nodes = .ok graph)
    (hreachable : evaluator.Reachable) (context : Context) (now : Timestamp) :
    (∀ outcome, (evaluator.evaluate graph context now).1 = .ok outcome →
        KeepsDeclarations nodes outcome) ∧
      (∀ progress slot, (Pass.run ⟨graph, context, now⟩ evaluator.schemas).1 = .ok progress →
        graph.finalSlot? = some slot → ∃ verdict, progress.result? slot = some (.bool verdict)) ∧
      ∀ id, (evaluator.evaluate graph context now).1 ≠ .error (.verdictLost id) := by
  have hsound := hreachable.sound
  refine ⟨fun outcome h => ⟨?_, ?_, ?_⟩, ?_, evaluate_ne_verdictLost hbuild hsound⟩
  · intro node hnode value hvalue
    rcases type_of_result hbuild hsound h hnode with hany | ⟨found, hfound, htype⟩
    · rw [hany, ValueType.any_accepts]
    · rw [hvalue, Option.some.injEq] at hfound
      rw [hfound, htype, ValueType.accepts_self]
  · intro node hnode hproduces
    rcases type_of_result hbuild hsound h hnode with hany | ⟨value, hvalue, -⟩
    · exact absurd hany (Node.outputType_ne_any hproduces)
    · exact ⟨value, hvalue⟩
  · exact fun node hnode htype => exists_bool_of_result hbuild hsound h hnode htype
  · intro progress slot hrun hslot
    have hcycle := Pass.hasCycle_of_run hrun
    exact exists_verdict_of_run hbuild hcycle (wellFounded_reads hbuild hcycle) hsound hrun hslot

end AnyEngine

/-- A list that no check accepts: an operator without inputs, one with an input too many and of
the wrong type, a null, and a second final node. -/
def muddle : List Node :=
  [.final 6 (some 4), .final 5 none, .logic 4 .lessThan [2, 1, 2], .logic 3 .sum [],
    .config 2 Detection.allChanged [1], .constant 1 .null]

/-- The muddle with its inputs resolved and its order. -/
def muddleGraph : Graph :=
  ⟨muddle, [(1, 5), (2, 4), (3, 3), (4, 2), (5, 1), (6, 0)],
    [[2], [], [4, 5, 4], [], [5], []], ⟨[1, 3, 5, 4, 2, 0], false, []⟩⟩

section BooleanSchemas

attribute [local instance] SchemaEngine.booleans

/-- The muddle is evaluated, and keeps to its declarations. -/
theorem muddle_keeps_declarations :
    ∃ outcome, (fresh.evaluate muddleGraph .empty 7).1 = .ok outcome ∧
      KeepsDeclarations muddle outcome := by
  have hbuild : build muddle = .ok muddleGraph := by rfl
  have hfresh : fresh.Reachable := .made SchemaCache.defaultCapacity fun _ => 0
  have hverdict : fresh.verdict muddleGraph .empty 7 = .ok false := by rfl
  rcases exists_outcome_of_verdict hverdict with ⟨outcome, houtcome, -⟩
  exact ⟨outcome, houtcome,
    (results_have_declared_types hbuild hfresh .empty 7).1 outcome houtcome⟩

end BooleanSchemas

end Evaluator

end TriggerGraph
