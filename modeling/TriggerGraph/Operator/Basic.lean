import TriggerGraph.Value.Basic

/-!
# Operators

A logic node applies one of a closed set of operators.  Each operator has a name,
a description, a category and a signature: the types of its inputs in order, the
least and the greatest number of inputs, and the type of its result.

Main results:

- Theorem `ofName?_name`: an operator is found by its name.
- Theorem `inputType_getLast`: beyond the listed types the last one repeats.
-/

namespace TriggerGraph

/-- Every operator a logic node can apply. -/
inductive Operator where
  | equals
  | lessThan
  | greaterThan
  | between
  | and
  | or
  | not
  | isTrue
  | isFalse
  | oneOf
  | noneOf
  | stringContains
  | containsElement
  | notContainsElement
  | notEmpty
  | lengthGt
  | sum
  | avg
  | min
  | max
  | containsAll
  | containsAny
  | inSet
  | hasKey
  | lacksKey
  | hasAllKeys
  | hasAnyKey
  | hasNoKeys
  | matchesSchema
  | pathExists
  | pathMissing
  | pathNotNull
deriving DecidableEq

/-- The groups in which operators are presented. -/
inductive OperatorCategory where
  | comparison
  | boolean
  | string
  | array
  | object
  | existence
deriving DecidableEq

namespace OperatorCategory

/-- The name in stored form. -/
def wireName : OperatorCategory → String
  | comparison => "COMPARISON"
  | boolean => "BOOLEAN"
  | string => "STRING"
  | array => "ARRAY"
  | object => "OBJECT"
  | existence => "EXISTENCE"

end OperatorCategory

/-- The signature of an operator; without a greatest count any number of inputs
from the least on will do. -/
structure Signature where
  category : OperatorCategory
  inputTypes : List ValueType
  minInputs : Nat
  maxInputs : Option Nat

namespace Signature

/-- A signature of exactly the listed inputs. -/
def fixed (category : OperatorCategory) (inputTypes : List ValueType) : Signature :=
  ⟨category, inputTypes, inputTypes.length, some inputTypes.length⟩

/-- A signature of at least `least` inputs of one type. -/
def variadic (category : OperatorCategory) (inputType : ValueType) (least : Nat) : Signature :=
  ⟨category, [inputType], least, none⟩

/-- The type expected at a place; beyond the listed types the last one repeats. -/
def inputType (signature : Signature) (index : Nat) : ValueType :=
  match signature.inputTypes[index]? with
  | some t => t
  | none => signature.inputTypes.getLast?.getD .any

/-- Whether a number of inputs is admitted. -/
def admitsCount (signature : Signature) (count : Nat) : Bool :=
  signature.minInputs ≤ count && signature.maxInputs.all fun most => count ≤ most

/-- How many inputs are wanted, in words. -/
def arityLabel (signature : Signature) : String :=
  match signature.maxInputs with
  | some most =>
    if most = signature.minInputs then toString most
    else toString signature.minInputs ++ " to " ++ toString most
  | none => "at least " ++ toString signature.minInputs

/-- Beyond the listed types the last one repeats. -/
theorem inputType_getLast {signature : Signature} {index : Nat}
    (h : signature.inputTypes.length ≤ index) :
    signature.inputType index = signature.inputTypes.getLast?.getD .any := by
  simp [inputType, List.getElem?_eq_none h]

end Signature

namespace Operator

/-- All operators in the order in which they are presented. -/
def all : List Operator :=
  [equals, lessThan, greaterThan, between, and, or, not, isTrue, isFalse, oneOf, noneOf,
    stringContains, containsElement, notContainsElement, notEmpty, lengthGt, sum, avg, min, max,
    containsAll, containsAny, inSet, hasKey, lacksKey, hasAllKeys, hasAnyKey, hasNoKeys,
    matchesSchema, pathExists, pathMissing, pathNotNull]

/-- The name in messages and in stored form. -/
def name : Operator → String
  | equals => "EQUALS"
  | lessThan => "LESS_THAN"
  | greaterThan => "GREATER_THAN"
  | between => "BETWEEN"
  | and => "AND"
  | or => "OR"
  | not => "NOT"
  | isTrue => "IS_TRUE"
  | isFalse => "IS_FALSE"
  | oneOf => "ONE_OF"
  | noneOf => "NONE_OF"
  | stringContains => "STRING_CONTAINS"
  | containsElement => "CONTAINS_ELEMENT"
  | notContainsElement => "NOT_CONTAINS_ELEMENT"
  | notEmpty => "NOT_EMPTY"
  | lengthGt => "LENGTH_GT"
  | sum => "SUM"
  | avg => "AVG"
  | min => "MIN"
  | max => "MAX"
  | containsAll => "CONTAINS_ALL"
  | containsAny => "CONTAINS_ANY"
  | inSet => "IN_SET"
  | hasKey => "HAS_KEY"
  | lacksKey => "LACKS_KEY"
  | hasAllKeys => "HAS_ALL_KEYS"
  | hasAnyKey => "HAS_ANY_KEY"
  | hasNoKeys => "HAS_NO_KEYS"
  | matchesSchema => "MATCHES_SCHEMA"
  | pathExists => "EXISTS"
  | pathMissing => "NOT_EXISTS"
  | pathNotNull => "IS_NOT_NULL"

/-- The operator of a name. -/
def ofName? (text : String) : Option Operator := all.find? fun operator => operator.name = text

/-- An operator is found by its name. -/
theorem ofName?_name (operator : Operator) : ofName? operator.name = some operator := by
  cases operator <;> rfl

/-- The type of the result, known without data. -/
def returnType : Operator → ValueType
  | sum | avg | min | max => .number
  | _ => .boolean

open OperatorCategory in
/-- The signature of an operator. -/
def signature : Operator → Signature
  | equals | lessThan | greaterThan => .fixed comparison [.any, .any]
  | between => .fixed comparison [.any, .any, .any]
  | and | or => .variadic boolean .boolean 2
  | not => .fixed boolean [.boolean]
  | isTrue | isFalse => .fixed boolean [.any]
  | oneOf | noneOf => .variadic boolean .any 1
  | stringContains => .fixed string [.string, .string]
  | containsElement | notContainsElement => .fixed array [.array, .any]
  | notEmpty => .fixed array [.any]
  | lengthGt => .fixed array [.any, .number]
  | sum | avg | min | max => .fixed array [.array]
  | containsAll | containsAny => .fixed array [.array, .array]
  | inSet => .fixed array [.any, .array]
  | hasKey | lacksKey => .fixed object [.object, .string]
  | hasAllKeys | hasAnyKey | hasNoKeys => .fixed object [.object, .array]
  | matchesSchema => .fixed object [.any, .string]
  | pathExists | pathMissing | pathNotNull => .fixed existence [.any]

end Operator

end TriggerGraph
