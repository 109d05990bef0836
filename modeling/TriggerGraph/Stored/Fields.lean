import TriggerGraph.Document.Basic

/-!
# Fields of stored objects

Stored objects are read field by field.  A field may be missing, in which case it
has a default or is an error, but a known field never occurs twice; unknown fields
are passed over unread.  Some objects may also be stored as an array of their
fields in a fixed order.

Main results:

- Theorems `unsigned?_ofUInt64` and `signed?_ofInt64`: words are read back from
  their documents.
-/

namespace TriggerGraph

namespace Stored

open Json (Tree)

/-- The fields of an object as written. -/
abbrev Fields := List (String × Tree)

/-! ## Looking up fields -/

/-- The fields of an object whose keys are all texts. -/
def fields? (members : List (Option String × Tree)) : Option Fields :=
  members.mapM fun member => member.1.map fun key => (key, member.2)

/-- The field under one of some names, which occurs at most once. -/
def field? (names : List String) (fields : Fields) : Option (Option Tree) :=
  match fields.filter fun field => names.contains field.1 with
  | [] => some none
  | [field] => some (some field.2)
  | _ => none

/-- A field that has to be there. -/
def required? {α : Type} (read : Tree → Option α) (field : Option Tree) : Option α :=
  field.bind read

/-- A field that may be missing. -/
def defaulted? {α : Type} (default : α) (read : Tree → Option α) (field : Option Tree) :
    Option α :=
  match field with
  | none => some default
  | some t => read t

/-- A field that may be missing or null. -/
def nullable? {α : Type} (read : Tree → Option α) (field : Option Tree) : Option (Option α) :=
  match field with
  | none => some none
  | some .null => some none
  | some t => (read t).map some

/-! ## Leaves -/

/-- A string whose characters are all there. -/
def string? : Tree → Option String
  | .string s => s
  | _ => none

/-- A boolean. -/
def bool? : Tree → Option Bool
  | .bool b => some b
  | _ => none

/-- A whole number at least zero that fits an unsigned word. -/
def unsigned? : Tree → Option UInt64
  | .number (some n) => n.unsigned?
  | _ => none

/-- A whole number that fits a signed word. -/
def signed? : Tree → Option Int64
  | .number (some n) => n.signed?
  | _ => none

/-- The items of an array, each read in one way. -/
def items? {α : Type} (read : Nat → Tree → Option α) : Nat → Tree → Option (List α)
  | budget + 1, .array items => items.mapM (read budget)
  | _, _ => none

/-- A name, written as a string or as the key of an object with one empty member. -/
def name? (isEmpty : Tree → Bool) : Tree → Option String
  | .string s => s
  | .object [(key, t)] => if isEmpty t then key else none
  | _ => none

/-- What stands behind the key of a name in an object of its own. -/
def isNull : Tree → Bool
  | .null => true
  | _ => false

/-- What stands behind the key of a name inside a node. -/
def isNullOrEmpty : Tree → Bool
  | .null => true
  | .object [] => true
  | _ => false

/-! ## Documents of leaves -/

/-- An unsigned word as a document. -/
def unsigned (n : UInt64) : Document := .number (.int (.ofUInt64 n))

/-- A signed word as a document. -/
def signed (n : Int64) : Document := .number (.int (.ofInt64 n))

/-- An unsigned word is read back from its document. -/
theorem unsigned?_ofUInt64 (n : UInt64) :
    unsigned? (.number (some (.int (.ofUInt64 n)))) = some n :=
  Number.unsigned?_ofUInt64 n

/-- A signed word is read back from its document. -/
theorem signed?_ofInt64 (n : Int64) :
    signed? (.number (some (.int (.ofInt64 n)))) = some n :=
  Number.signed?_ofInt64 n

end Stored

end TriggerGraph
