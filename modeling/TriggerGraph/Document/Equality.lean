import TriggerGraph.Document.Basic

/-!
# Equality of documents

Two documents are equal when they have one shape and their numbers are equal, so that
whole and floating-point numbers are kept apart.

Main results:

- Definition `equal`: equality at every depth.
-/

namespace TriggerGraph.Document

mutual

/-- Strict equality: a whole number never equals a floating-point number. -/
def equal : Document → Document → Bool
  | .null, .null => true
  | .bool a, .bool b => a = b
  | .number m, .number n => m.equal n
  | .string s, .string t => s = t
  | .array xs, .array ys => equalItems xs ys
  | .object xs, .object ys => equalMembers xs ys
  | _, _ => false

/-- Equality of items, place by place. -/
def equalItems : List Document → List Document → Bool
  | [], [] => true
  | x :: xs, y :: ys => equal x y && equalItems xs ys
  | _, _ => false

/-- Equality of members, which are in key order on both sides. -/
def equalMembers : List (String × Document) → List (String × Document) → Bool
  | [], [] => true
  | (k, x) :: xs, (l, y) :: ys => k = l && equal x y && equalMembers xs ys
  | _, _ => false

end

end TriggerGraph.Document
