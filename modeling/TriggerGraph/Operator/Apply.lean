import TriggerGraph.Evaluation.Error
import TriggerGraph.Schema.Cache
import TriggerGraph.Value.Fingerprint

/-!
# What operators compute

An operator computes a result from its operands: the nodes wired to it, what they
produced, and the source document for the operators that inspect paths.  Only the
schema operator needs the schema cache; its meaning does not depend on it.

Main results:

- Theorem `run_of_ne_matchesSchema`: every other operator leaves the cache alone.
-/

namespace TriggerGraph

/-- What an operator sees of its node in a pass. -/
structure Operands where
  node : NodeId
  inputs : List (Node × Option Value)
  source : Option Document

namespace Operands

/-- What the input at a place produced; nothing when there is no such input. -/
def value? (operands : Operands) (index : Nat) : Option Value :=
  operands.inputs[index]?.bind (·.2)

/-- What the inputs produced, in order. -/
def values (operands : Operands) : List (Option Value) := operands.inputs.map (·.2)

/-- The list at a place. -/
def list? (operands : Operands) (index : Nat) : Option (List Value) :=
  (operands.value? index).bind Value.list?

/-- The path of the provider wired first. -/
def providerPath? (operands : Operands) : Option String :=
  operands.inputs[0]?.bind fun input => input.1.providerPath?

end Operands

namespace Value

/-! ## Relations between values -/

/-- The order of two values: strings by their characters, numbers by magnitude as
binary64 numbers; anything else has none. -/
def order? : Value → Value → Option Ordering
  | .string s, .string t => some (compare s t)
  | .number m, .number n => some (compare m.toBinary64.rank n.toBinary64.rank)
  | _, _ => none

/-- The length of a list, a string in characters, or an object in members. -/
def length? : Value → Option Nat
  | .list items => some items.length
  | .string s => some s.length
  | .object members => some members.length
  | _ => none

/-- Whether a list has an element loosely equal to a value. -/
def isElementOf (v : Value) (items : List Value) : Bool :=
  items.any fun item => item.looselyEqual v

/-- Whether an object has the key that a value spells. -/
def isKeyOf (key : Value) (members : List (String × Document)) : Bool :=
  match key with
  | .string s => (Keyed.find? s members).isSome
  | _ => false

/-- Whether a result is the boolean true. -/
def holdsTrue (v : Option Value) : Bool := v.any isTrue

end Value

namespace Text

/-- Whether a text occurs within another. -/
def occursIn (needle : List Char) : List Char → Bool
  | [] => needle.isEmpty
  | c :: rest => needle.isPrefixOf (c :: rest) || occursIn needle rest

end Text

namespace Operator

/-! ## Comparison -/

/-- The order of two operands, if both are there and have one. -/
def orderOf? (operands : Operands) (left right : Nat) : Option Ordering := do
  (← operands.value? left).order? (← operands.value? right)

/-- Whether the first two operands are there and loosely equal. -/
def areEqual (operands : Operands) : Bool :=
  match operands.value? 0, operands.value? 1 with
  | some v, some w => v.looselyEqual w
  | _, _ => false

/-- Whether the first operand lies between the second and the third, ends included. -/
def isBetween (operands : Operands) : Bool :=
  (orderOf? operands 0 1).any (· != .lt) && (orderOf? operands 0 2).any (· != .gt)

/-! ## Truth -/

/-- How many operands are boolean true. -/
def trueCount (operands : Operands) : Nat := operands.values.countP Value.holdsTrue

/-- Whether a result is the boolean false. -/
def isFalseValue (v : Option Value) : Bool :=
  match v with
  | some (.bool false) => true
  | _ => false

/-! ## Strings and collections -/

/-- Whether the first string contains the second. -/
def containsText (operands : Operands) : Bool :=
  match operands.value? 0, operands.value? 1 with
  | some (.string text), some (.string needle) => Text.occursIn needle.toList text.toList
  | _, _ => false

/-- Whether the list that is the first operand has the second as an element. -/
def containsValue (operands : Operands) : Bool :=
  match operands.list? 0, operands.value? 1 with
  | some items, some element => element.isElementOf items
  | _, _ => false

/-- Whether the first operand is there and not an empty collection or string. -/
def isFilled (operands : Operands) : Bool :=
  match operands.value? 0 with
  | none => false
  | some .null => false
  | some v => v.length?.all fun length => 0 < length

/-- Whether the length of the first operand exceeds the number that is the second. -/
def isLonger (operands : Operands) : Bool :=
  match (operands.value? 0).bind Value.length?, (operands.value? 1).bind Value.toBinary64? with
  | some length, some limit => limit.less (Binary64.ofInt length)
  | _, _ => false

/-- The numeric elements of the first operand. -/
def numbers (operands : Operands) : List Binary64 :=
  ((operands.list? 0).getD []).filterMap Value.toBinary64?

/-- The sum from left to right; an empty sum is negative zero, which changes no
number added to it. -/
def total (xs : List Binary64) : Binary64 := xs.foldl Binary64.add Binary64.negZero

/-- The sum from zero divided by the count; zero without numbers. -/
def mean (xs : List Binary64) : Binary64 :=
  if xs.isEmpty then Binary64.zero
  else (xs.foldl Binary64.add Binary64.zero).div (Binary64.ofInt xs.length)

/-- The number that a choice between two leaves of all; zero without numbers. -/
def extreme (choose : Binary64 → Binary64 → Binary64) : List Binary64 → Binary64
  | [] => Binary64.zero
  | x :: rest => rest.foldl choose x

/-- Whether the first list holds every element of the second. -/
def containsAllOf (operands : Operands) : Bool :=
  match operands.list? 0, operands.list? 1 with
  | some items, some wanted => wanted.all fun v => v.inSet items
  | _, _ => false

/-- Whether the first list holds some element of the second. -/
def containsAnyOf (operands : Operands) : Bool :=
  match operands.list? 0, operands.list? 1 with
  | some items, some wanted => wanted.any fun v => v.inSet items
  | _, _ => false

/-- Whether the first operand is an element of the set that is the second. -/
def isInSet (operands : Operands) : Bool :=
  match operands.value? 0, operands.list? 1 with
  | some v, some items => v.inSet items
  | _, _ => false

/-! ## Objects -/

/-- The object that is the first operand. -/
def object? (operands : Operands) : Option (List (String × Document)) :=
  (operands.value? 0).bind Value.object?

/-- Whether the object that is the first operand has the second as a key. -/
def hasTheKey (operands : Operands) : Bool :=
  match object? operands, operands.value? 1 with
  | some members, some key => key.isKeyOf members
  | _, _ => false

/-- How many of the listed keys the object has, and how many are listed. -/
def keysFound? (operands : Operands) : Option (Nat × Nat) := do
  let members ← object? operands
  let listed ← operands.list? 1
  return (listed.countP fun key => key.isKeyOf members, listed.length)

/-! ## Schemas -/

/-- The value to check and the schema text to check it with.  Without a value there
is nothing to check, whatever the second operand is. -/
def schemaQuery (operands : Operands) : Except EvaluationError (Option (Value × String)) :=
  match operands.value? 0 with
  | none => .ok none
  | some v => match operands.value? 1 with
    | some (.string text) => .ok (some (v, text))
    | other => .error (.schemaNotString operands.node (other.map Value.type))

variable [SchemaEngine]

/-- The result for a value and the answer of the compiler. -/
def schemaVerdict (node : NodeId) (v : Value) (answer : SchemaAnswer) :
    Except EvaluationError Value :=
  match answer with
  | .ok schema => .ok (.bool (SchemaEngine.accepts schema v.toDocument))
  | .error error => .error (.schemaUnusable node error)

/-- Whether the first operand is accepted by the schema in the second. -/
def applySchema (operands : Operands) : Except EvaluationError Value :=
  match schemaQuery operands with
  | .error error => .error error
  | .ok none => .ok (.bool false)
  | .ok (some (v, text)) => schemaVerdict operands.node v (Schema.compile text)

/-! ## Existence -/

/-- What the source holds at the path of the provider wired first. -/
def lookup (operands : Operands) : Except EvaluationError (Option Document) :=
  match operands.providerPath? with
  | none => .error (.inputNotProvider operands.node)
  | some path => match operands.source with
    | none => .error (.sourceMissing operands.node)
    | some source => .ok (source.resolve? (Path.relativeToSource path))

/-! ## All operators -/

/-- The result of an operator. -/
def apply (operator : Operator) (operands : Operands) : Except EvaluationError Value :=
  match operator with
  | .equals => .ok (.bool (areEqual operands))
  | .lessThan => .ok (.bool (orderOf? operands 0 1 == some .lt))
  | .greaterThan => .ok (.bool (orderOf? operands 0 1 == some .gt))
  | .between => .ok (.bool (isBetween operands))
  | .and => .ok (.bool (operands.values.all Value.holdsTrue))
  | .or => .ok (.bool (operands.values.any Value.holdsTrue))
  | .not => .ok (.bool (!Value.holdsTrue (operands.value? 0)))
  | .isTrue => .ok (.bool (Value.holdsTrue (operands.value? 0)))
  | .isFalse => .ok (.bool (isFalseValue (operands.value? 0)))
  | .oneOf => .ok (.bool (trueCount operands = 1))
  | .noneOf => .ok (.bool (trueCount operands = 0))
  | .stringContains => .ok (.bool (containsText operands))
  | .containsElement => .ok (.bool (containsValue operands))
  | .notContainsElement => .ok (.bool (!containsValue operands))
  | .notEmpty => .ok (.bool (isFilled operands))
  | .lengthGt => .ok (.bool (isLonger operands))
  | .sum => .ok (.number (.float (total (numbers operands))))
  | .avg => .ok (.number (.float (mean (numbers operands))))
  | .min => .ok (.number (.float (extreme Binary64.min (numbers operands))))
  | .max => .ok (.number (.float (extreme Binary64.max (numbers operands))))
  | .containsAll => .ok (.bool (containsAllOf operands))
  | .containsAny => .ok (.bool (containsAnyOf operands))
  | .inSet => .ok (.bool (isInSet operands))
  | .hasKey => .ok (.bool (hasTheKey operands))
  | .lacksKey => .ok (.bool (!hasTheKey operands))
  | .hasAllKeys => .ok (.bool ((keysFound? operands).any fun counts => counts.1 = counts.2))
  | .hasAnyKey => .ok (.bool ((keysFound? operands).any fun counts => 0 < counts.1))
  | .hasNoKeys => .ok (.bool ((keysFound? operands).all fun counts => counts.1 = 0))
  | .matchesSchema => applySchema operands
  | .pathExists => (lookup operands).map fun found => .bool found.isSome
  | .pathMissing => (lookup operands).map fun found => .bool found.isNone
  | .pathNotNull => (lookup operands).map fun found => .bool (found.any fun d => !d.isNull)

/-- The result of an operator with schemas from a cache, and the cache afterwards. -/
def run (operator : Operator) (operands : Operands) (cache : SchemaCache) :
    Except EvaluationError Value × SchemaCache :=
  if operator = .matchesSchema then
    match schemaQuery operands with
    | .error error => (.error error, cache)
    | .ok none => (.ok (.bool false), cache)
    | .ok (some (v, text)) =>
      (schemaVerdict operands.node v (cache.request text).1, (cache.request text).2)
  else (operator.apply operands, cache)

/-- Every other operator leaves the cache alone. -/
theorem run_of_ne_matchesSchema {operator : Operator} (h : operator ≠ .matchesSchema)
    (operands : Operands) (cache : SchemaCache) :
    operator.run operands cache = (operator.apply operands, cache) := by
  simp [run, h]

end Operator

end TriggerGraph
