import TriggerGraph.Operator.Apply

/-!
# Results and errors of operators

An operator that computes a result computes one of its declared type.  Only two kinds
of operator can fail: the schema operator, when its second operand is no text or a text
that does not compile, and the existence checks, when nothing tells them where to look.

Main results:

- Theorem `type_of_apply`: results have the declared type.
- Theorem `apply_eq_error`: which operators fail.
- Theorems `applySchema_eq_error` and `lookup_eq_error`: why they fail.
-/

namespace TriggerGraph

namespace Operator

variable {operator : Operator} {operands : Operands} {error : EvaluationError}

/-- The operators that look at the path of a provider. -/
def checksExistence : Operator → Bool
  | pathExists | pathMissing | pathNotNull => true
  | _ => false

/-! ## Results -/

/-- Operators are declared boolean or as numbers. -/
theorem returnType_cases (operator : Operator) :
    operator.returnType = .boolean ∨ operator.returnType = .number := by
  cases operator <;> simp [returnType]

theorem map_eq_error_iff {α β ε : Type} {x : Except ε α} {f : α → β} {e : ε} :
    x.map f = .error e ↔ x = .error e := by
  cases x <;> simp [Except.map]

/-- An existence check fails when no provider is wired first or there is no source. -/
theorem lookup_eq_error (h : lookup operands = .error error) :
    operands.providerPath? = none ∨ operands.source = none := by
  unfold lookup at h
  split at h
  · rename_i hpath
    exact Or.inl hpath
  · split at h
    · rename_i hsource
      exact Or.inr hsource
    · cases h

variable [SchemaEngine]

/-- A schema's verdict is a boolean. -/
theorem exists_bool_of_schemaVerdict {node : NodeId} {v result : Value}
    {answer : SchemaAnswer} (h : schemaVerdict node v answer = .ok result) :
    ∃ b, result = .bool b := by
  cases answer with
  | error error => cases h
  | ok schema =>
      cases h
      exact ⟨_, rfl⟩

/-- The schema operator answers with a boolean. -/
theorem exists_bool_of_applySchema {result : Value} (h : applySchema operands = .ok result) :
    ∃ b, result = .bool b := by
  unfold applySchema at h
  split at h
  · cases h
  · cases h
    exact ⟨false, rfl⟩
  · exact exists_bool_of_schemaVerdict h

/-- Results have the declared type. -/
theorem type_of_apply {result : Value} (h : operator.apply operands = .ok result) :
    result.type = operator.returnType := by
  have hbool : ∀ {b : Bool}, (Except.ok (.bool b) : Except EvaluationError Value) = .ok result →
      result.type = .boolean := by
    rintro b ⟨⟩
    rfl
  have hnumber : ∀ {n : MachineNumber}, (Except.ok (.number n) : Except EvaluationError Value) =
      .ok result → result.type = .number := by
    rintro n ⟨⟩
    rfl
  have hlookup : ∀ {f : Option Document → Bool},
      ((lookup operands).map fun found => Value.bool (f found)) = .ok result →
      result.type = .boolean := by
    intro f hf
    cases hfound : lookup operands with
    | error error =>
        rw [hfound] at hf
        cases hf
    | ok found =>
        rw [hfound] at hf
        exact hbool hf
  cases operator with
  | sum => exact hnumber h
  | avg => exact hnumber h
  | min => exact hnumber h
  | max => exact hnumber h
  | matchesSchema =>
      rcases exists_bool_of_applySchema h with ⟨b, rfl⟩
      rfl
  | pathExists => exact hlookup h
  | pathMissing => exact hlookup h
  | pathNotNull => exact hlookup h
  | _ => exact hbool h

/-! ## Errors -/

/-- Only the schema operator and the existence checks can fail. -/
theorem apply_eq_error (h : operator.apply operands = .error error) :
    operator = .matchesSchema ∧ applySchema operands = .error error ∨
      operator.checksExistence = true ∧ lookup operands = .error error := by
  cases operator with
  | matchesSchema => exact Or.inl ⟨rfl, h⟩
  | pathExists => exact Or.inr ⟨rfl, map_eq_error_iff.1 h⟩
  | pathMissing => exact Or.inr ⟨rfl, map_eq_error_iff.1 h⟩
  | pathNotNull => exact Or.inr ⟨rfl, map_eq_error_iff.1 h⟩
  | _ => cases h

/-- The schema operator fails when its second operand is no text, or a text that does
not compile. -/
theorem applySchema_eq_error (h : applySchema operands = .error error) :
    (∃ found, error = .schemaNotString operands.node found ∧
        ∀ text, operands.value? 1 ≠ some (.string text)) ∨
      ∃ text reason, error = .schemaUnusable operands.node reason ∧
        operands.value? 1 = some (.string text) ∧ Schema.compile text = .error reason := by
  unfold applySchema schemaQuery at h
  cases hfirst : operands.value? 0 with
  | none => simp [hfirst] at h
  | some v =>
      rw [hfirst] at h
      dsimp only at h
      split at h
      · rename_i other hquery
        cases h
        split at hquery
        · cases hquery
        · rename_i hother
          cases hquery
          exact Or.inl ⟨_, rfl, fun text htext => hother text htext⟩
      · cases h
      · rename_i w text hquery
        split at hquery
        · rename_i other hother
          cases hquery
          cases hcompile : Schema.compile text with
          | ok schema =>
              rw [hcompile] at h
              cases h
          | error reason =>
              rw [hcompile] at h
              cases h
              exact Or.inr ⟨text, reason, rfl, hother, hcompile⟩
        · cases hquery

end Operator

end TriggerGraph
