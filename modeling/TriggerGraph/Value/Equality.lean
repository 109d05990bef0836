import TriggerGraph.Document.Equality
import TriggerGraph.Value.Basic

/-!
# Equality of values

Strict equality keeps whole and floating-point numbers apart and takes both
zeros for one.  Loose equality compares normalized values, in which a whole
floating-point number is a whole number, in lists at every depth; objects are
left as they are.

Main results:

- Theorem `normalized_normalized`: normalizing twice changes nothing more.
- Definition `looselyEqual`: equality up to the representation of numbers.
-/

namespace TriggerGraph.Value

/-! ## Strict equality -/

mutual

/-- Equality of values; floating-point numbers are equal by value. -/
def equal : Value → Value → Bool
  | .null, .null => true
  | .bool a, .bool b => a = b
  | .number m, .number n => m.equal n
  | .string s, .string t => s = t
  | .list xs, .list ys => equalItems xs ys
  | .object xs, .object ys => Document.equalMembers xs ys
  | _, _ => false

/-- Equality of lists, item by item. -/
def equalItems : List Value → List Value → Bool
  | [], [] => true
  | x :: xs, y :: ys => equal x y && equalItems xs ys
  | _, _ => false

end

/-- Strict equality of results, where no value equals only no value. -/
def equalOption : Option Value → Option Value → Bool
  | none, none => true
  | some v, some w => v.equal w
  | _, _ => false

/-! ## Loose equality -/

mutual

/-- The value with its whole floating-point numbers as whole numbers, in lists at
every depth. -/
def normalized : Value → Value
  | .number n => .number n.normalized
  | .list items => .list (normalizedItems items)
  | .null => .null
  | .bool b => .bool b
  | .string s => .string s
  | .object members => .object members

/-- The normalized items of a list. -/
def normalizedItems : List Value → List Value
  | [] => []
  | v :: rest => normalized v :: normalizedItems rest

end

/-- Equality up to the representation of numbers. -/
def looselyEqual (v w : Value) : Bool := v.normalized.equal w.normalized

mutual

/-- Normalizing twice changes nothing more. -/
theorem normalized_normalized : ∀ v : Value, v.normalized.normalized = v.normalized
  | .null => rfl
  | .bool _ => rfl
  | .number n => by simp [normalized]
  | .string _ => rfl
  | .list items => by rw [normalized, normalized, normalizedItems_normalizedItems items]
  | .object _ => rfl

theorem normalizedItems_normalizedItems : ∀ vs : List Value,
    normalizedItems (normalizedItems vs) = normalizedItems vs
  | [] => rfl
  | v :: rest => by
      rw [normalizedItems, normalizedItems, normalized_normalized v,
        normalizedItems_normalizedItems rest]

end

end TriggerGraph.Value
