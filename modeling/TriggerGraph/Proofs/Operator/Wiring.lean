import TriggerGraph.Proofs.Operator.Results
import TriggerGraph.Operator.Wiring

/-!
# Operators without wiring faults

What the checks of a signature promise once they find nothing: how many inputs there
are, that each is declared with a type that fits its place, and for the operators that
can fail, what kind of node the decisive input is.

Main results:

- Theorem `wiringFault?_eq_none_iff`: there is no fault exactly when the number, the
  types and the kinds of the inputs are right.
- Theorem `exists_provider_of_checksExistence`: an existence check is wired to a
  provider.
- Theorem `exists_inputs_of_matchesSchema`: the second input of the schema operator is
  a provider, a null, or a text that compiles.
-/

namespace TriggerGraph

namespace Operator

variable {operator : Operator} {inputs : List Node}

theorem typeFault?_eq_none_iff {signature : Signature} {index : Nat} :
    typeFault? signature index inputs = none ↔
      ∀ place input, inputs[place]? = some input →
        (signature.inputType (index + place)).accepts input.outputType = true := by
  induction inputs generalizing index with
  | nil => simp [typeFault?]
  | cons head rest ih =>
      unfold typeFault?
      by_cases haccepts : (signature.inputType index).accepts head.outputType = true
      · rw [if_pos haccepts, ih]
        constructor
        · intro hrest place input hinput
          cases place with
          | zero =>
              cases hinput
              exact haccepts
          | succ place =>
              have hplace : index + (place + 1) = index + 1 + place := by omega
              rw [hplace]
              exact hrest place input hinput
        · intro hall place input hinput
          have hplace : index + 1 + place = index + (place + 1) := by omega
          rw [hplace]
          exact hall (place + 1) input hinput
      · rw [if_neg haccepts]
        constructor
        · intro hnone
          cases hnone
        · intro hall
          exact absurd (hall 0 head rfl) haccepts

/-- A node that may be wired where a text is wanted is a provider, a null, or holds a
text. -/
theorem textSource_of_accepts {node : Node}
    (h : ValueType.string.accepts node.outputType = true) :
    node.isProvider = true ∨ node.kind = .constant .null ∨ (schemaLiteral? node).isSome = true := by
  have htype : node.outputType = .any ∨ node.outputType = .string := by
    have hsymm : node.outputType = .any ∨ ValueType.string = node.outputType := by
      simpa [ValueType.accepts] using h
    exact hsymm.imp_right Eq.symm
  unfold Node.outputType at htype
  unfold Node.isProvider Node.providerPath? schemaLiteral?
  cases hkind : node.kind with
  | constant value =>
      rw [hkind] at htype
      cases value with
      | null => exact Or.inr (Or.inl rfl)
      | string text => exact Or.inr (Or.inr rfl)
      | _ => rcases htype with hany | hstring <;> contradiction
  | provider path => exact Or.inl rfl
  | logic operator =>
      rw [hkind] at htype
      cases operator <;> rcases htype with hany | hstring <;> contradiction
  | schema text => exact Or.inr (Or.inr rfl)
  | config detection =>
      rw [hkind] at htype
      rcases htype with hany | hstring <;> contradiction
  | final =>
      rw [hkind] at htype
      rcases htype with hany | hstring <;> contradiction

variable [SchemaEngine]

/-- There is no fault exactly when the number, the types and the kinds of the inputs are
right. -/
theorem wiringFault?_eq_none_iff :
    operator.wiringFault? inputs = none ↔
      operator.signature.admitsCount inputs.length = true ∧
        (∀ place input, inputs[place]? = some input →
          (operator.signature.inputType place).accepts input.outputType = true) ∧
          operator.kindFault? inputs = none := by
  unfold wiringFault?
  by_cases hcount : operator.signature.admitsCount inputs.length = true
  · simp [hcount, typeFault?_eq_none_iff]
  · simp [hcount]

/-- An existence check is wired to a provider. -/
theorem exists_provider_of_checksExistence (h : operator.wiringFault? inputs = none)
    (hchecks : operator.checksExistence = true) :
    ∃ provider rest, inputs = provider :: rest ∧ provider.isProvider = true := by
  have hkind := (wiringFault?_eq_none_iff.1 h).2.2
  have hfirst : inputs[0]?.any Node.isProvider = true := by
    cases operator with
    | pathExists => simpa [kindFault?] using hkind
    | pathMissing => simpa [kindFault?] using hkind
    | pathNotNull => simpa [kindFault?] using hkind
    | _ => cases hchecks
  cases inputs with
  | nil => cases hfirst
  | cons provider rest => exact ⟨provider, rest, rfl, hfirst⟩

/-- The schema operator has two inputs; the second is a provider, a null, or a text that
compiles. -/
theorem exists_inputs_of_matchesSchema (h : wiringFault? .matchesSchema inputs = none) :
    ∃ first second, inputs = [first, second] ∧
      (second.isProvider = true ∨ second.kind = .constant .null ∨
        ∃ text schema, schemaLiteral? second = some text ∧ Schema.compile text = .ok schema) := by
  rcases wiringFault?_eq_none_iff.1 h with ⟨hcount, htypes, hkind⟩
  have hbounds : 2 ≤ inputs.length ∧ inputs.length ≤ 2 := by
    simpa [signature, Signature.fixed, Signature.admitsCount] using hcount
  have hlength : inputs.length = 2 := by omega
  rcases inputs with - | ⟨first, - | ⟨second, - | ⟨third, rest⟩⟩⟩ <;> simp at hlength
  refine ⟨first, second, rfl, ?_⟩
  rcases textSource_of_accepts (htypes 1 second rfl) with hprovider | hnull | htext
  · exact Or.inl hprovider
  · exact Or.inr (Or.inl hnull)
  · rcases Option.isSome_iff_exists.1 htext with ⟨text, hliteral⟩
    cases hcompile : Schema.compile text with
    | ok schema => exact Or.inr (Or.inr ⟨text, schema, hliteral, hcompile⟩)
    | error reason => simp [kindFault?, hliteral, hcompile] at hkind

end Operator

end TriggerGraph
