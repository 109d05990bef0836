import TriggerGraph.Proofs.Node.Settings
import TriggerGraph.Proofs.Operator.Results

/-!
# Operators on masked operands

Change detection yields a boolean, and so does most of what is computed from it; the rest
are numbers.  When the truth of booleans and the amount of numbers are masked, an operator
still has a result whenever it had one, of the same type, and it fails with the same error
as before: whether it fails depends on texts and paths alone.

Main results:

- Theorem `masked_eq_of_type`: two booleans are masked alike, and so are two numbers.
- Theorem `map_masked_apply`: masking the operands changes a result only by masking it.
-/

namespace TriggerGraph

/-! ## Masks -/

namespace Value

/-- The value with its truth or its amount hidden; texts, lists and objects stay. -/
def masked : Value → Value
  | .null => .null
  | .bool _ => .bool false
  | .number _ => .number (.float Binary64.zero)
  | .string s => .string s
  | .list items => .list items
  | .object members => .object members

/-- Two booleans are masked alike, and so are two numbers. -/
theorem masked_eq_of_type {v w : Value} (h : v.type = w.type)
    (htype : v.type = .boolean ∨ v.type = .number) : v.masked = w.masked := by
  cases v <;> cases w <;> simp_all [type, masked]

end Value

namespace Operands

/-- The operands with masked values and untuned nodes. -/
def masked (operands : Operands) : Operands :=
  ⟨operands.node, operands.inputs.map (Prod.map Node.untuned (Option.map Value.masked)),
    operands.source⟩

/-- The value at a place is masked. -/
@[simp] theorem value?_masked (operands : Operands) (index : Nat) :
    operands.masked.value? index = (operands.value? index).map Value.masked := by
  unfold value? masked
  rw [List.getElem?_map]
  cases operands.inputs[index]? <;> rfl

@[simp] theorem providerPath?_masked (operands : Operands) :
    operands.masked.providerPath? = operands.providerPath? := by
  unfold providerPath? masked
  rw [List.getElem?_map]
  cases operands.inputs[0]? with
  | none => rfl
  | some input => exact Node.providerPath?_retuned

end Operands

/-! ## Operators -/

namespace Operator

variable {operator : Operator}

/-- Masks do not touch what is found at a path. -/
@[simp] theorem lookup_masked (operands : Operands) : lookup operands.masked = lookup operands := by
  unfold lookup
  rw [Operands.providerPath?_masked]
  rfl

/-- The schema operator finds the same text to compile, and the value to check masked. -/
theorem schemaQuery_masked (operands : Operands) :
    schemaQuery operands.masked =
      (schemaQuery operands).map (Option.map (Prod.map Value.masked id)) := by
  unfold schemaQuery
  rw [Operands.value?_masked, Operands.value?_masked]
  cases operands.value? 0 with
  | none => rfl
  | some v =>
      cases operands.value? 1 with
      | none => rfl
      | some w => cases w <;> rfl

variable [SchemaEngine]

/-- Results of one operator are masked alike. -/
theorem masked_eq_of_apply {operands other : Operands} {v w : Value}
    (hv : operator.apply operands = .ok v) (hw : operator.apply other = .ok w) :
    v.masked = w.masked := by
  have htype := type_of_apply hv
  refine Value.masked_eq_of_type (htype.trans (type_of_apply hw).symm) ?_
  rw [htype]
  exact returnType_cases operator

/-- The schema operator answers masked operands alike, up to a mask. -/
theorem map_masked_applySchema (operands : Operands) :
    (applySchema operands).map Value.masked = (applySchema operands.masked).map Value.masked := by
  unfold applySchema
  rw [schemaQuery_masked]
  cases schemaQuery operands with
  | error error => rfl
  | ok query =>
      rcases query with - | ⟨v, text⟩
      · rfl
      · simp only [Except.map, Option.map, Prod.map, id, schemaVerdict]
        cases Schema.compile text <;> rfl

/-- Masking the operands changes a result only by masking it, and no error. -/
theorem map_masked_apply (operator : Operator) (operands : Operands) :
    (operator.apply operands).map Value.masked =
      (operator.apply operands.masked).map Value.masked := by
  have hfail : ∀ given error, operator.apply given = .error error →
      operator = .matchesSchema ∨ operator.checksExistence = true :=
    fun given error h => (apply_eq_error h).imp And.left And.left
  by_cases hspecial : operator = .matchesSchema ∨ operator.checksExistence = true
  · rcases hspecial with rfl | hchecks
    · exact map_masked_applySchema operands
    · cases operator with
      | pathExists | pathMissing | pathNotNull => rw [apply, apply, lookup_masked]
      | _ => cases hchecks
  · -- Every other operator has a result on any operands.
    cases hv : operator.apply operands with
    | error error => exact absurd (hfail _ _ hv) hspecial
    | ok v =>
        cases hw : operator.apply operands.masked with
        | error error => exact absurd (hfail _ _ hw) hspecial
        | ok w => exact congrArg Except.ok (masked_eq_of_apply hv hw)

end Operator

end TriggerGraph
