import TriggerGraph.Proofs.Operator.Wiring

/-!
# Inputs that fit an operator

What an operator asks of the nodes wired to it, said without the checks that look for
faults: how many there are, of which declared types, and for a few operators of which
kind.

Main results:

- Theorem `Signature.expects_iff`: the type expected at a place is the listed one, or the
  last one beyond the list.
- Theorem `Operator.wiringFault?_eq_none_iff_fits`: there is no fault exactly when the
  inputs fit.
-/

namespace TriggerGraph

namespace Signature

/-- The type listed for a place; beyond the listed types the last one repeats. -/
def Expects (signature : Signature) (place : Nat) (expected : ValueType) : Prop :=
  signature.inputTypes[min place (signature.inputTypes.length - 1)]? = some expected

/-- The type expected at a place is the listed one, or the last one beyond the list. -/
theorem expects_iff {signature : Signature} (h : signature.inputTypes ≠ []) {place : Nat}
    {expected : ValueType} :
    signature.Expects place expected ↔ expected = signature.inputType place := by
  have hpos := List.length_pos_iff.2 h
  have hlisted : signature.inputTypes[min place (signature.inputTypes.length - 1)]? =
      some (signature.inputType place) := by
    by_cases hlt : place < signature.inputTypes.length
    · rw [Nat.min_eq_left (by omega), inputType, List.getElem?_eq_getElem hlt]
    · rw [Nat.not_lt] at hlt
      rw [Nat.min_eq_right (by omega), inputType_getLast hlt, ← List.getLast?_eq_getElem?,
        List.getLast?_eq_some_getLast h, Option.getD_some]
  unfold Expects
  rw [hlisted, Option.some_inj, eq_comm]

end Signature

/-- A type flows where it is wanted, where anything is, and it flows anywhere if it may be
anything. -/
theorem ValueType.accepts_iff {expected actual : ValueType} :
    expected.accepts actual = true ↔ expected = .any ∨ actual = .any ∨ expected = actual := by
  simp [ValueType.accepts, or_assoc]

theorem Node.isProvider_iff {node : Node} :
    node.isProvider = true ↔ ∃ path, node.kind = .provider path := by
  unfold isProvider providerPath?
  split
  · rename_i path hkind
    exact ⟨fun _ => ⟨path, hkind⟩, fun _ => rfl⟩
  · rename_i hother
    constructor
    · intro h
      cases h
    · rintro ⟨path, hkind⟩
      exact absurd hkind (hother path)

namespace Operator

/-! ## What an operator asks for -/

/-- The nodes wired to an operator are what it asks for. -/
structure Fits [SchemaEngine] (operator : Operator) (inputs : List Node) : Prop where
  least : operator.signature.minInputs ≤ inputs.length
  most : ∀ count, operator.signature.maxInputs = some count → inputs.length ≤ count
  types : ∀ place input, inputs[place]? = some input →
    ∃ expected, operator.signature.Expects place expected ∧
      (expected = .any ∨ input.outputType = .any ∨ expected = input.outputType)
  set : operator = .inSet →
    ∃ second items, inputs[1]? = some second ∧ second.kind = .constant (.list items)
  provider : operator = .pathExists ∨ operator = .pathMissing ∨ operator = .pathNotNull →
    ∃ first path, inputs[0]? = some first ∧ first.kind = .provider path
  schema : operator = .matchesSchema → ∀ second text, inputs[1]? = some second →
    second.kind = .schema text ∨ second.kind = .constant (.string text) →
      ∃ schema, Schema.compile text = .ok schema

variable {operator : Operator} {inputs : List Node}

theorem inputTypes_ne_nil (operator : Operator) : operator.signature.inputTypes ≠ [] := by
  cases operator <;> exact List.cons_ne_nil _ _

theorem isConstantList_iff {node : Node} :
    isConstantList node = true ↔ ∃ items, node.kind = .constant (.list items) := by
  unfold isConstantList
  split
  · rename_i items hkind
    exact ⟨fun _ => ⟨items, hkind⟩, fun _ => rfl⟩
  · rename_i hother
    constructor
    · intro h
      cases h
    · rintro ⟨items, hkind⟩
      exact absurd hkind (hother items)

/-- A literal schema is a schema node or a constant text. -/
theorem schemaLiteral?_eq_some_iff {node : Node} {text : String} :
    schemaLiteral? node = some text ↔
      node.kind = .schema text ∨ node.kind = .constant (.string text) := by
  unfold schemaLiteral?
  split
  · rename_i other hkind
    simp [hkind]
  · rename_i other hkind
    simp [hkind]
  · rename_i hschema hstring
    constructor
    · intro h
      cases h
    · rintro (hkind | hkind)
      · exact absurd hkind (hschema text)
      · exact absurd hkind (hstring text)

/-! ## Checks of single inputs -/

theorem isConstantList_second_iff :
    inputs[1]?.any isConstantList = true ↔
      ∃ second items, inputs[1]? = some second ∧ second.kind = .constant (.list items) := by
  simp [Option.any_eq_true, isConstantList_iff]

theorem isProvider_first_iff :
    inputs[0]?.any Node.isProvider = true ↔
      ∃ first path, inputs[0]? = some first ∧ first.kind = .provider path := by
  simp [Option.any_eq_true, Node.isProvider_iff]

/-- A count is admitted between the least and, if there is one, the most. -/
theorem admitsCount_iff {signature : Signature} {count : Nat} :
    signature.admitsCount count = true ↔
      signature.minInputs ≤ count ∧ ∀ most, signature.maxInputs = some most → count ≤ most := by
  cases hmost : signature.maxInputs <;> simp [Signature.admitsCount, hmost]

variable [SchemaEngine]

/-- The schema operator finds no fault in the kinds of its inputs exactly when a literal
schema compiles. -/
theorem kindFault?_matchesSchema :
    kindFault? .matchesSchema inputs = none ↔ ∀ second text, inputs[1]? = some second →
      second.kind = .schema text ∨ second.kind = .constant (.string text) →
        ∃ schema, Schema.compile text = .ok schema := by
  unfold kindFault?
  cases hliteral : inputs[1]?.bind schemaLiteral? with
  | none =>
      simp only [true_iff]
      intro second text hsecond hkind
      rw [hsecond, Option.bind_some, schemaLiteral?_eq_some_iff.2 hkind] at hliteral
      cases hliteral
  | some text =>
      rcases Option.bind_eq_some_iff.1 hliteral with ⟨second, hsecond, htext⟩
      dsimp only
      cases hcompile : Schema.compile text with
      | ok schema =>
          simp only [true_iff]
          intro other literal hother hkind
          cases hsecond.symm.trans hother
          cases htext.symm.trans (schemaLiteral?_eq_some_iff.2 hkind)
          exact ⟨schema, hcompile⟩
      | error error =>
          simp only [reduceCtorEq, false_iff]
          intro hall
          rcases hall second text hsecond (schemaLiteral?_eq_some_iff.1 htext) with ⟨schema, hok⟩
          cases hok.symm.trans hcompile

/-- The kinds of the inputs are right exactly when the set, the provider and the literal
schema that an operator may ask for are. -/
theorem kindFault?_eq_none_iff :
    operator.kindFault? inputs = none ↔
      (operator = .inSet →
          ∃ second items, inputs[1]? = some second ∧ second.kind = .constant (.list items)) ∧
        (operator = .pathExists ∨ operator = .pathMissing ∨ operator = .pathNotNull →
          ∃ first path, inputs[0]? = some first ∧ first.kind = .provider path) ∧
        (operator = .matchesSchema → ∀ second text, inputs[1]? = some second →
          second.kind = .schema text ∨ second.kind = .constant (.string text) →
            ∃ schema, Schema.compile text = .ok schema) := by
  cases operator with
  | inSet => simpa [kindFault?] using isConstantList_second_iff
  | pathExists => simpa [kindFault?] using isProvider_first_iff
  | pathMissing => simpa [kindFault?] using isProvider_first_iff
  | pathNotNull => simpa [kindFault?] using isProvider_first_iff
  | matchesSchema => simp [kindFault?_matchesSchema]
  | _ => simp [kindFault?]

/-- There is no fault exactly when the inputs fit. -/
theorem wiringFault?_eq_none_iff_fits :
    operator.wiringFault? inputs = none ↔ operator.Fits inputs := by
  have hplace : ∀ (place : Nat) (input : Node),
      (operator.signature.inputType place).accepts input.outputType = true ↔
        ∃ expected, operator.signature.Expects place expected ∧
          (expected = .any ∨ input.outputType = .any ∨ expected = input.outputType) := by
    intro place input
    simp only [Signature.expects_iff operator.inputTypes_ne_nil, exists_eq_left,
      ValueType.accepts_iff]
  rw [wiringFault?_eq_none_iff, admitsCount_iff, kindFault?_eq_none_iff]
  simp only [hplace]
  constructor
  · rintro ⟨⟨hleast, hmost⟩, htypes, hset, hprovider, hschema⟩
    exact ⟨hleast, hmost, htypes, hset, hprovider, hschema⟩
  · rintro ⟨hleast, hmost, htypes, hset, hprovider, hschema⟩
    exact ⟨⟨hleast, hmost⟩, htypes, hset, hprovider, hschema⟩

end Operator

end TriggerGraph
