import TriggerGraph.Proofs.Document.Text
import TriggerGraph.Proofs.Stored.Node

/-!
# Stored formats survive re-encoding

A text may leave out fields, name a field differently, store an object as an array, hold fields
that nobody reads and repeat what only the last of counts.  Whatever is read from it, within the
limit on the nesting of texts or a larger one, fits in that limit, is written as a text of finite
numbers and is read back from there as the very same.

Main results:

- Theorem `rereads_of_fitsIn`: what fits where it was read is read again from its text.
- Theorem `stored_formats_survive_reencoding`: nodes, definitions, snapshots and contexts are.
-/

namespace TriggerGraph

open Json (Tree)

namespace Stored

variable {α : Type} {read : Nat → Tree → Option α} {write : α → Document}

/-- What is read from a text, within the limit on nesting or a larger one, is read again from the
text that it is written as. -/
def Rereads (read : Nat → Tree → Option α) (write : α → Document) : Prop :=
  ∀ budget, Document.nestingLimit ≤ budget → ∀ text a,
    (Tree.ofText? text).bind (read budget) = some a →
    (Tree.ofText? (write a).text).bind (read budget) = some a

/-- What fits where it was read is read again from its text. -/
theorem rereads_of_fitsIn (Fits : α → Nat → Prop)
    (hfits : ∀ {below t a}, t.AllFinite → read (below + 4) t = some a → Fits a below)
    (hfinite : ∀ {below a}, Fits a below → (write a).AllFinite)
    (hback : ∀ {below a}, Fits a below → read (below + 4) (write a).toTree = some a) :
    Rereads read write := by
  intro budget hbudget text a hread
  rcases Option.bind_eq_some_iff.1 hread with ⟨t, ht, hread⟩
  obtain ⟨below, rfl⟩ : ∃ below, budget = below + 4 :=
    ⟨budget - 4, by rw [Document.nestingLimit] at hbudget; omega⟩
  have ha := hfits (Tree.allFinite_of_ofText? ht) hread
  rw [Tree.ofText?_text (hfinite ha), Option.bind_some]
  exact hback ha

end Stored

open Stored

/-- A node is read again from its text. -/
theorem Node.rereads : Rereads Node.ofTree? Node.toDocument :=
  rereads_of_fitsIn (fun node below => node.FitsIn (below + 3))
    (fun ht h => Node.fitsIn_of_ofTree? ht h) (fun h => h.allFinite_toDocument)
    fun h => h.ofTree?_toTree

/-- A snapshot is read again from its text, in whatever order its entries are written. -/
theorem Snapshot.rereads [EntryOrder] : Rereads Snapshot.ofTree? Snapshot.toDocument :=
  rereads_of_fitsIn (fun snapshot below => snapshot.FitsIn (below + 2))
    (fun ht h => Snapshot.fitsIn_of_ofTree? ht h) (fun h => h.allFinite_toDocument)
    fun h => (h.readsBack _ _).2 ⟨rfl, h⟩

/-- So is a context with such a snapshot. -/
theorem Context.rereads [EntryOrder] : Rereads Context.ofTree? Context.toDocument :=
  rereads_of_fitsIn (fun context below => context.FitsIn (below + 1))
    (fun ht h => Context.fitsIn_of_ofTree? ht h) (fun h => h.allFinite_toDocument)
    fun h => (h.readsBack _ _).2 ⟨rfl, h⟩

/-- A definition is read again from its text. -/
theorem GraphDefinition.rereads : Rereads GraphDefinition.ofTree? GraphDefinition.toDocument :=
  rereads_of_fitsIn (fun definition below => definition.FitsIn (below + 1))
    (fun ht h => GraphDefinition.fitsIn_of_ofTree? ht h) (fun h => h.allFinite_toDocument)
    fun h => h.ofTree?_toTree

/-- What is read as a node, a definition, a snapshot or a context, from whatever text, is written
as a text that is read as the very same, in whatever order the entries of a snapshot are
written; and a definition that can be loaded can be loaded again from its own text. -/
theorem stored_formats_survive_reencoding [EntryOrder] :
    Rereads Node.ofTree? Node.toDocument ∧
      Rereads GraphDefinition.ofTree? GraphDefinition.toDocument ∧
      Rereads Snapshot.ofTree? Snapshot.toDocument ∧
      Rereads Context.ofTree? Context.toDocument ∧
      ∀ text definition, GraphDefinition.ofText text = .ok definition →
        GraphDefinition.ofText definition.toDocument.text = .ok definition := by
  refine ⟨Node.rereads, GraphDefinition.rereads, Snapshot.rereads, Context.rereads, ?_⟩
  intro text definition hload
  have hnodes := GraphDefinition.ofText_nodes_ne_nil hload
  have hread : (Tree.ofText? text).bind (GraphDefinition.ofTree? Document.nestingLimit) =
      some definition := by
    unfold GraphDefinition.ofText at hload
    split at hload
    · cases hload
    · rename_i found hfound
      split at hload
      · cases hload
      · cases hload
        exact hfound
  have hagain := GraphDefinition.rereads Document.nestingLimit (Nat.le_refl _) text definition hread
  rw [GraphDefinition.ofText, hagain]
  simp [hnodes]

/-- A provider with its kind by number and its path under the other name, without name and inputs,
and with a field that nobody reads. -/
def terseProvider : Document :=
  .object [("type", unsigned 1), ("json_path", .string "source.a"), ("id", unsigned 7),
    ("note", .array [])]

section AscendingEntries

attribute [local instance] EntryOrder.ascending

/-- The terse provider is read, and read again from the text it is written as. -/
theorem terse_provider_survives_reencoding :
    ∃ node : Node, Node.ofText? terseProvider.text = some node ∧
      Node.ofText? node.toDocument.text = some node := by
  have hread : Node.ofText? terseProvider.text = some (.provider 7 "source.a") := by
    have hfinite : terseProvider.AllFinite := ⟨rfl, trivial, rfl, trivial, trivial⟩
    rw [Node.ofText?, Tree.ofText?_text hfinite]
    rfl
  have hsurvives := stored_formats_survive_reencoding.1 Document.nestingLimit (Nat.le_refl _)
  exact ⟨_, hread, hsurvives _ _ hread⟩

end AscendingEntries

end TriggerGraph
