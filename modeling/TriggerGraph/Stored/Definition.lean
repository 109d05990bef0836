import TriggerGraph.Definition
import TriggerGraph.Stored.Node

/-!
# Stored definitions

A definition is stored as an object with a name, a node count and the nodes, or as
an array of the three.  A definition without nodes is refused.

Main results:

- Theorem `ofText_nodes_ne_nil`: a loaded definition has nodes.
-/

namespace TriggerGraph

open Json (Tree)
open Stored

namespace GraphDefinition

/-- The definition made of three fields. -/
def ofParts? (budget : Nat) (name count nodes : Option Tree) : Option GraphDefinition := do
  let name ← defaulted? "" string? name
  let count ← nullable? unsigned? count
  let nodes ← required? (items? Node.ofTree? budget) nodes
  return ⟨name, count, nodes⟩

/-- The definition of a tree within a nesting budget. -/
def ofTree? : Nat → Tree → Option GraphDefinition
  | budget + 1, .object members => do
    let fields ← fields? members
    ofParts? budget (← field? ["name"] fields) (← field? ["nodeCount"] fields)
      (← field? ["nodes"] fields)
  | budget + 1, .array items =>
    if 3 < items.length then none else ofParts? budget items[0]? items[1]? items[2]?
  | _, _ => none

/-- Loads a definition from its text. -/
def ofText (text : String) : Except DefinitionError GraphDefinition :=
  match (Tree.ofText? text).bind (ofTree? Document.nestingLimit) with
  | none => .error .unreadable
  | some definition =>
    if definition.nodes.isEmpty then .error .noNodes else .ok definition

/-- The stored definition; a count that was not recorded is left out. -/
def toDocument (definition : GraphDefinition) : Document :=
  Document.ofMembers <|
    [("name", .string definition.name),
      ("nodes", .array (definition.nodes.map Node.toDocument))]
      ++ match definition.nodeCount with
        | some count => [("nodeCount", unsigned count)]
        | none => []

/-- A loaded definition has nodes. -/
theorem ofText_nodes_ne_nil {text : String} {definition : GraphDefinition}
    (h : ofText text = .ok definition) : definition.nodes ≠ [] := by
  unfold ofText at h
  split at h
  · cases h
  · split at h
    · cases h
    · rename_i hnodes
      cases h
      simpa using hnodes

end GraphDefinition

end TriggerGraph
