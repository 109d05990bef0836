import TriggerGraph.Proofs.Evaluation.Reading
import TriggerGraph.Proofs.Operator.Results

/-!
# Values have their declared types

The type that a node is declared with is known without data.  Whatever the data, the
node yields a value of this type; only providers and null constants are declared with
no type in particular, and only they may yield nothing.

Main results:

- Theorem `Node.type_of_meaning`: what a node means has its declared type.
- Theorem `Graph.type_of_reading`: so has its value in the graph.
-/

namespace TriggerGraph

namespace Node

variable {context : Context} {now : Timestamp} {node : Node}
  {inputs : List (Node × Option Value)} {value : Option Value}

variable [SchemaEngine]

/-- What a node means has the type that the node is declared with, if it is declared
with one. -/
theorem type_of_meaning (h : node.meaning context now inputs = .ok value) :
    node.outputType = .any ∨ ∃ v, value = some v ∧ v.type = node.outputType := by
  unfold meaning at h
  unfold outputType
  cases hkind : node.kind with
  | constant v =>
      rw [hkind] at h
      cases v with
      | null => exact Or.inl rfl
      | _ =>
          cases h
          exact Or.inr ⟨_, rfl, rfl⟩
  | provider path => exact Or.inl rfl
  | logic operator =>
      rw [hkind] at h
      cases happly : operator.apply ⟨node.id, inputs, context.source⟩ with
      | error error =>
          simp only [happly] at h
          cases h
      | ok result =>
          simp only [happly] at h
          cases h
          exact Or.inr ⟨result, rfl, Operator.type_of_apply happly⟩
  | schema text =>
      rw [hkind] at h
      cases h
      exact Or.inr ⟨_, rfl, rfl⟩
  | config detection =>
      rw [hkind] at h
      cases h
      exact Or.inr ⟨_, rfl, rfl⟩
  | final =>
      rw [hkind] at h
      dsimp only at h
      split at h
      · cases h
        exact Or.inr ⟨_, rfl, rfl⟩
      · cases h
        exact Or.inr ⟨_, rfl, rfl⟩
      · cases h

end Node

namespace Graph

variable {graph : Graph} {context : Context} {now : Timestamp}
  {hreads : WellFounded graph.Reads}

variable [SchemaEngine]

/-- Values have the declared type of their node. -/
theorem type_of_reading {id : NodeId} {node : Node} (hnode : graph.node? id = some node)
    {value : Option Value} (h : graph.reading context now hreads id = .ok value) :
    node.outputType = .any ∨ ∃ v, value = some v ∧ v.type = node.outputType := by
  rcases exists_values_of_reading_eq_ok hnode h with ⟨values, -, hmeaning⟩
  exact Node.type_of_meaning hmeaning

/-- What is declared boolean is boolean. -/
theorem exists_bool_of_reading {id : NodeId} {node : Node} (hnode : graph.node? id = some node)
    (htype : node.outputType = .boolean) {value : Option Value}
    (h : graph.reading context now hreads id = .ok value) : ∃ b, value = some (.bool b) := by
  rcases type_of_reading hnode h with hany | ⟨v, rfl, hv⟩
  · rw [htype] at hany
    cases hany
  · rw [htype] at hv
    cases v with
    | bool b => exact ⟨b, rfl⟩
    | _ => cases hv

end Graph

end TriggerGraph
