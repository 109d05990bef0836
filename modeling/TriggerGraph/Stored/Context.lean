import TriggerGraph.Evaluation.Context
import TriggerGraph.Stored.Fields

/-!
# Stored contexts and snapshots

A snapshot is stored as an object from paths to entries, each with a value and a
timestamp.  It lives in a hash map, so its entries are written in an order that
nobody chose, and everything that writes a snapshot is made for every such order.  A
context is stored as an object with the source and the snapshot of the pass before.
A null stands for what is not there, so a null source, unlike a source that holds a
null, is no source.

Main results:

- Class `EntryOrder`: the order in which the entries of a snapshot are written.
- Definitions `Context.ofText?` and `Context.toDocument`: contexts from texts and as
  documents.
-/

namespace TriggerGraph

open Json (Tree)
open Stored

/-! ## Snapshots -/

/-- The order in which a hash map gives the entries of a snapshot.  Of this order nothing is
known but that each entry comes once. -/
class EntryOrder where
  arrange : Snapshot → List (String × SnapshotEntry)
  arrange_perm : ∀ snapshot, (arrange snapshot).Perm snapshot.entries

/-- The order of the paths. -/
@[reducible] def EntryOrder.ascending : EntryOrder := ⟨Snapshot.entries, fun _ => .rfl⟩

namespace SnapshotEntry

/-- The value of an entry. -/
def value? (budget : Nat) (t : Tree) : Option Value :=
  (Document.ofTree? budget t).map Value.ofDocument

/-- The entry as an object, or as an array of its value and its timestamp. -/
def ofTree? : Nat → Tree → Option SnapshotEntry
  | budget + 1, .object members => do
    let fields ← fields? members
    let value ← nullable? (value? budget) (← field? ["value"] fields)
    let timestamp ← required? signed? (← field? ["timestamp"] fields)
    return ⟨value, timestamp⟩
  | budget + 1, .array [value, timestamp] => do
    let value ← nullable? (value? budget) (some value)
    let timestamp ← signed? timestamp
    return ⟨value, timestamp⟩
  | _, _ => none

/-- The stored entry; no value is stored as a null. -/
def toDocument (entry : SnapshotEntry) : Document :=
  Document.ofMembers
    [("value", match entry.value with
      | some v => v.toDocument
      | none => .null),
      ("timestamp", signed entry.timestamp)]

end SnapshotEntry

namespace Snapshot

/-- The snapshot of a tree within a nesting budget; of two entries at one path the
later one stays. -/
def ofTree? : Nat → Tree → Option Snapshot
  | budget + 1, .object members => do
    let fields ← fields? members
    let entries ← fields.mapM fun field =>
      (SnapshotEntry.ofTree? budget field.2).map fun entry => (field.1, entry)
    return ofList entries
  | _, _ => none

/-- The snapshot of a text. -/
def ofText? (text : String) : Option Snapshot :=
  (Tree.ofText? text).bind (ofTree? Document.nestingLimit)

/-- The stored snapshot. -/
def toDocument [EntryOrder] (snapshot : Snapshot) : Document :=
  .object ((EntryOrder.arrange snapshot).map fun entry => (entry.1, entry.2.toDocument))

end Snapshot

/-! ## Contexts -/

namespace Context

/-- The context made of two fields. -/
def ofParts? (budget : Nat) (source snapshot : Option Tree) : Option Context := do
  let source ← nullable? (Document.ofTree? budget) source
  let snapshot ← nullable? (Snapshot.ofTree? budget) snapshot
  return ⟨source, snapshot⟩

/-- The context of a tree within a nesting budget. -/
def ofTree? : Nat → Tree → Option Context
  | budget + 1, .object members => do
    let fields ← fields? members
    ofParts? budget (← field? ["source"] fields) (← field? ["__snapshot"] fields)
  | budget + 1, .array items =>
    if 2 < items.length then none else ofParts? budget items[0]? items[1]?
  | _, _ => none

/-- The context of a text. -/
def ofText? (text : String) : Option Context :=
  (Tree.ofText? text).bind (ofTree? Document.nestingLimit)

/-- The stored context; what is not there is left out. -/
def toDocument [EntryOrder] (context : Context) : Document :=
  Document.ofMembers <|
    (match context.source with
      | some source => [("source", source)]
      | none => [])
      ++ match context.snapshot with
        | some snapshot => [("__snapshot", snapshot.toDocument)]
        | none => []

end Context

end TriggerGraph
