import TriggerGraph.Operator.Basic

/-!
# The operator catalog

Graph editors learn from the catalog which operators there are, what they do and
how they are wired.  An entry is a document whose members stand in the order of
presentation.

Main results:

- Definition `Catalog.document`: the catalog, with an entry for every operator.
-/

namespace TriggerGraph

namespace Operator

/-- What an operator does, in a sentence. -/
def description : Operator → String
  | equals => "True when both inputs hold the same value; numbers compare by magnitude"
  | lessThan => "True when the first input orders before the second"
  | greaterThan => "True when the first input orders after the second"
  | between =>
    "True when the first input lies within the inclusive range given by the second and third"
  | and => "True when every input is boolean true"
  | or => "True when at least one input is boolean true"
  | not => "True when the input is not boolean true"
  | isTrue => "True when the input is boolean true"
  | isFalse => "True when the input is boolean false"
  | oneOf => "True when exactly one input is boolean true"
  | noneOf => "True when no input is boolean true"
  | stringContains => "True when the first string contains the second as a substring"
  | containsElement => "True when the array contains the element"
  | notContainsElement => "True when the array does not contain the element"
  | notEmpty => "True when the input is present and, if a collection or string, non-empty"
  | lengthGt => "True when the length of the collection or string exceeds the number"
  | sum => "Sum of the numeric elements of the array"
  | avg => "Mean of the numeric elements of the array"
  | min => "Smallest numeric element of the array"
  | max => "Largest numeric element of the array"
  | containsAll => "True when the source array contains every element of the reference array"
  | containsAny =>
    "True when the source array contains at least one element of the reference array"
  | inSet => "True when the value is a member of the constant set"
  | hasKey => "True when the object has the key"
  | lacksKey => "True when the object lacks the key, or there is no object"
  | hasAllKeys => "True when the object has every listed key"
  | hasAnyKey => "True when the object has at least one listed key"
  | hasNoKeys => "True when the object has none of the listed keys, or there is no object"
  | matchesSchema => "True when the document validates against the JSON schema"
  | pathExists => "True when the provider's path is present in the source data, even if null"
  | pathMissing => "True when the provider's path is absent from the source data"
  | pathNotNull => "True when the provider's path is present and not null"

end Operator

namespace Catalog

/-- A count as a document; counts beyond one word do not occur in signatures. -/
def count (n : Nat) : Document :=
  match WordInt.ofInt? n with
  | some i => .number (.int i)
  | none => .null

/-- The catalog entry of an operator. -/
def entry (operator : Operator) : Document :=
  let signature := operator.signature
  .object [
    ("operator", .string operator.name),
    ("name", .string operator.name),
    ("description", .string operator.description),
    ("category", .string signature.category.wireName),
    ("inputTypes", .array (signature.inputTypes.map fun t => .string t.wireName)),
    ("minInputs", count signature.minInputs),
    ("maxInputs", match signature.maxInputs with
      | some most => count most
      | none => .null),
    ("outputType", .string operator.returnType.wireName)]

/-- The entries of all operators, in their order. -/
def entries : List Document := Operator.all.map entry

/-- The catalog as a document. -/
def document : Document := .array entries

end Catalog

end TriggerGraph
