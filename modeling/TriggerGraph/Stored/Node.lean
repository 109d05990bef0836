import TriggerGraph.Node
import TriggerGraph.Stored.Fields

/-!
# Stored nodes

A node is stored as one object that holds its identity, name and inputs together
with the fields of its kind, named by the field `type`.  Every field of a node has
to be readable, but only the fields of its own kind are known there.

Main results:

- Definitions `Node.ofText?` and `Node.toDocument`: nodes from texts and as documents.
-/

namespace TriggerGraph

open Json (Tree)
open Stored

/-! ## Change detection settings -/

namespace Detection

/-- The settings among the fields of an object; each has a default. -/
def ofFields? (isEmpty : Tree → Bool) (fields : Fields) : Option Detection := do
  let mode ← defaulted? .anyPath (fun t => (name? isEmpty t).bind DetectionMode.ofWireName?)
    (← field? ["mode"] fields)
  let active ← defaulted? true bool? (← field? ["active"] fields)
  let enabled ← defaulted? false bool? (← field? ["timeWindowEnabled"] fields)
  let millis ← defaulted? 0 signed? (← field? ["timeWindowMillis"] fields)
  return ⟨mode, active, enabled, millis⟩

/-- The settings as an object, or as an array of them in order that may end early. -/
def ofTree? : Tree → Option Detection
  | .object members => (fields? members).bind (ofFields? isNull)
  | .array items =>
    if 4 < items.length then none
    else do
      let mode ← defaulted? .anyPath (fun t => (name? isNull t).bind DetectionMode.ofWireName?)
        items[0]?
      let active ← defaulted? true bool? items[1]?
      let enabled ← defaulted? false bool? items[2]?
      let millis ← defaulted? 0 signed? items[3]?
      return ⟨mode, active, enabled, millis⟩
  | _ => none

/-- The settings of a text. -/
def ofText? (text : String) : Option Detection := (Tree.ofText? text).bind ofTree?

/-- The stored settings. -/
def members (detection : Detection) : List (String × Document) :=
  [("mode", .string detection.mode.wireName), ("active", .bool detection.active),
    ("timeWindowEnabled", .bool detection.windowEnabled),
    ("timeWindowMillis", signed detection.windowMillis)]

/-- The stored settings as an object. -/
def toDocument (detection : Detection) : Document := Document.ofMembers detection.members

end Detection

/-! ## Kinds -/

namespace NodeKind

/-- The names of the kinds, in the order in which a number selects them. -/
def tags : List String := ["constant", "provider", "logic", "schema", "config", "final"]

/-- The tag of a kind, by name or by number. -/
def tag? : Tree → Option String
  | .string s => s
  | .number (some (.int i)) => if 0 ≤ i.val then tags[i.val.toNat]? else none
  | _ => none

/-- The kind of a tag, from the fields beside it. -/
def ofTag? (budget : Nat) (fields : Fields) (tag : String) : Option NodeKind :=
  if tag = "constant" then do
    let value ← required? (Document.ofTree? budget) (← field? ["value"] fields)
    return .constant (Value.ofDocument value)
  else if tag = "provider" then do
    return .provider (← required? string? (← field? ["jsonPath", "json_path"] fields))
  else if tag = "logic" then do
    let name ← required? (name? isNullOrEmpty) (← field? ["operator"] fields)
    return .logic (← Operator.ofName? name)
  else if tag = "schema" then do
    return .schema (← required? string? (← field? ["schema"] fields))
  else if tag = "config" then do
    return .config (← Detection.ofFields? isNullOrEmpty fields)
  else if tag = "final" then some .final
  else none

/-- The stored fields of a kind, its tag first. -/
def members : NodeKind → List (String × Document)
  | .constant value => [("type", .string "constant"), ("value", value.toDocument)]
  | .provider path => [("type", .string "provider"), ("jsonPath", .string path)]
  | .logic operator => [("type", .string "logic"), ("operator", .string operator.name)]
  | .schema text => [("type", .string "schema"), ("schema", .string text)]
  | .config detection => ("type", .string "config") :: detection.members
  | .final => [("type", .string "final")]

end NodeKind

/-! ## Nodes -/

namespace Node

/-- The fields that every node has. -/
def commonFields : List String := ["id", "name", "inputs"]

/-- The node of an object within a nesting budget. -/
def ofTree? : Nat → Tree → Option Node
  | budget + 1, .object members => do
    let fields ← fields? members
    let own := fields.filter fun field => !commonFields.contains field.1
    let _ ← own.mapM fun field => Document.ofTree? budget field.2
    let id ← required? unsigned? (← field? ["id"] fields)
    let name ← defaulted? "" string? (← field? ["name"] fields)
    let inputs ← defaulted? [] (items? (fun _ => unsigned?) budget) (← field? ["inputs"] fields)
    let tag ← required? NodeKind.tag? (← field? ["type"] own)
    let kind ← NodeKind.ofTag? budget own tag
    return ⟨id, name, inputs, kind⟩
  | _, _ => none

/-- The node of a text. -/
def ofText? (text : String) : Option Node :=
  (Tree.ofText? text).bind (ofTree? Document.nestingLimit)

/-- The nodes of a text that holds an array of them. -/
def listOfText? (text : String) : Option (List Node) :=
  (Tree.ofText? text).bind (items? ofTree? Document.nestingLimit)

/-- The stored node. -/
def toDocument (node : Node) : Document :=
  Document.ofMembers <|
    [("id", unsigned node.id), ("name", .string node.name),
      ("inputs", .array (node.inputs.map unsigned))] ++ node.kind.members

/-! ## Equality -/

/-- Equality of kinds, with constants compared strictly. -/
def equalKind : NodeKind → NodeKind → Bool
  | .constant v, .constant w => v.equal w
  | .provider p, .provider q => p = q
  | .logic a, .logic b => a = b
  | .schema s, .schema t => s = t
  | .config c, .config d => c = d
  | .final, .final => true
  | _, _ => false

/-- Equality of nodes, with constants compared strictly. -/
def equal (a b : Node) : Bool :=
  a.id = b.id && a.name = b.name && a.inputs = b.inputs && equalKind a.kind b.kind

end Node

end TriggerGraph
