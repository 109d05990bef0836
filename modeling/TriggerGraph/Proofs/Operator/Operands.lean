import TriggerGraph.Proofs.Operator.Results

/-!
# Operators of values

Apart from the existence checks, which look at a path, and the schema operator, which
names its node in an error, an operator reads nothing of its operands but what they
produced.  Such an operator is a function of a list of results, each a value or none.

Main results:

- Theorem `apply_eq_on`: the result of such an operator depends on the operands' values
  alone.
- Theorem `on_containsElement`: the search for one element, on values.
-/

namespace TriggerGraph

/-- Operands that produced the given results; which nodes produced them is left open. -/
def Operands.ofValues (values : List (Option Value)) : Operands :=
  ⟨0, values.map fun v => (Node.constant 0 .null, v), none⟩

@[simp] theorem Operands.values_ofValues (values : List (Option Value)) :
    (Operands.ofValues values).values = values := by
  simp [Operands.values, Operands.ofValues, Function.comp_def]

theorem Operands.value?_eq (operands : Operands) (index : Nat) :
    operands.value? index = operands.values[index]?.join := by
  rw [value?, values, List.getElem?_map]
  cases operands.inputs[index]? with
  | none => rfl
  | some input => rfl

namespace Operator

variable {operator : Operator} {operands : Operands}

/-- The operators that read the values of their operands and nothing else. -/
def readsValues (operator : Operator) : Bool :=
  !operator.checksExistence && operator ≠ .matchesSchema

variable [SchemaEngine]

/-- The result of an operator on what its operands produced. -/
def on (operator : Operator) (values : List (Option Value)) : Except EvaluationError Value :=
  operator.apply (.ofValues values)

/-- Operands that produced the same values give such an operator the same result. -/
theorem apply_congr {other : Operands} (h : operator.readsValues = true)
    (hvalues : operands.values = other.values) :
    operator.apply operands = operator.apply other := by
  have hvalue : ∀ index, operands.value? index = other.value? index := fun index => by
    rw [Operands.value?_eq, Operands.value?_eq, hvalues]
  have hlist : ∀ index, operands.list? index = other.list? index := fun index => by
    rw [Operands.list?, Operands.list?, hvalue]
  cases operator with
  | matchesSchema | pathExists | pathMissing | pathNotNull => cases h
  | oneOf | noneOf => rw [apply, apply, trueCount, trueCount, hvalues]
  | _ =>
      simp only [apply, areEqual, orderOf?, isBetween, containsText, containsValue,
        isFilled, isLonger, numbers, containsAllOf, containsAnyOf, isInSet, hasTheKey,
        keysFound?, object?, hvalue, hlist, hvalues]

/-- What such an operator computes depends on the operands' values alone. -/
theorem apply_eq_on (h : operator.readsValues = true) (operands : Operands) :
    operator.apply operands = operator.on operands.values :=
  apply_congr h (Operands.values_ofValues _).symm

/-- The search for one element tells whether it is an element. -/
theorem on_containsElement (items : List Value) (v : Value) :
    on .containsElement [some (.list items), some v] = .ok (.bool (v.isElementOf items)) := rfl

/-- The search for one element holds if it is an element. -/
theorem on_containsElement_eq_true_iff {items : List Value} {v : Value} :
    on .containsElement [some (.list items), some v] = .ok (.bool true) ↔
      v.isElementOf items = true := by
  rw [on_containsElement, Except.ok.injEq, Value.bool.injEq]

end Operator

end TriggerGraph
