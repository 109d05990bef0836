import TriggerGraph.Value.Equality

/-!
# Fingerprints and sets of values

A set of values is searched by fingerprint: the sequence of marks that a value
feeds to a hash.  Floating-point numbers leave their bits and the members of an
object their text, so a value is found in a set when an element has its
fingerprint and is equal to it.

Main results:

- Theorem `inSet_iff`: membership needs an equal element of the same fingerprint.
-/

namespace TriggerGraph

/-- One step of the sequence that a value feeds to a hash. -/
inductive Mark where
  | null
  | bool (b : Bool)
  | signed (i : Int64)
  | unsigned (u : UInt64)
  | bits (pattern : Nat)
  | string (s : String)
  | list (length : Nat)
  | object (members : Nat)
  | text (s : String)
deriving DecidableEq

namespace Value

mutual

/-- The marks of a value. -/
def fingerprint : Value → List Mark
  | .null => [.null]
  | .bool b => [.bool b]
  | .number (.word (.signed i)) => [.signed i]
  | .number (.word (.unsigned u _)) => [.unsigned u]
  | .number (.float x) => [.bits x.toBits]
  | .string s => [.string s]
  | .list items => .list items.length :: fingerprintItems items
  | .object members =>
    .object members.length :: members.flatMap fun entry => [.text entry.1, .text entry.2.text]

/-- The marks of the items of a list, one after the other. -/
def fingerprintItems : List Value → List Mark
  | [] => []
  | v :: rest => fingerprint v ++ fingerprintItems rest

end

/-- Whether two values leave the same marks. -/
def sameFingerprint (v w : Value) : Bool := v.fingerprint = w.fingerprint

/-- Whether a value is an element of the set of normalized `items`. -/
def inSet (v : Value) (items : List Value) : Bool :=
  items.any fun item =>
    item.normalized.sameFingerprint v.normalized && item.normalized.equal v.normalized

/-- Membership needs an equal element of the same fingerprint. -/
theorem inSet_iff (v : Value) (items : List Value) :
    v.inSet items = true ↔ ∃ item ∈ items,
      item.normalized.fingerprint = v.normalized.fingerprint ∧ item.looselyEqual v = true := by
  simp [inSet, sameFingerprint, looselyEqual]

end Value

end TriggerGraph
