import TriggerGraph.Graph.Components
import TriggerGraph.Graph.Feeding
import TriggerGraph.Graph.Worklist

/-!
# Topological order

Slots are put in an order in which each follows all that feed it.  On a graph with
a cycle the order stops short, and the nodes on cycles are named: the slots that the
worklist leaves over lie on a cycle or behind one, and a component search among
them keeps the former.

Main results:

- Theorem `mem_insertAscending_iff`: an insertion adds exactly the inserted
  identity.
- Theorem `ascending_ascendingIds`: the identities on cycles strictly ascend.
-/

namespace TriggerGraph

/-! ## Ascending identities -/

/-- The identities with one more, in ascending order and without repetition. -/
def insertAscending (id : NodeId) : List NodeId → List NodeId
  | [] => [id]
  | head :: rest =>
    if id < head then id :: head :: rest
    else if id = head then head :: rest
    else head :: insertAscending id rest

/-- The identities in ascending order without repetition. -/
def ascendingIds (ids : List NodeId) : List NodeId := ids.foldr insertAscending []

/-- An insertion adds exactly the inserted identity. -/
theorem mem_insertAscending_iff {id other : NodeId} {ids : List NodeId} :
    other ∈ insertAscending id ids ↔ other = id ∨ other ∈ ids := by
  induction ids with
  | nil => simp [insertAscending]
  | cons head rest ih =>
      unfold insertAscending
      split
      · simp
      · split
        · rename_i heq
          simp [heq]
        · simp only [List.mem_cons, ih]
          exact or_left_comm

theorem mem_ascendingIds_iff {other : NodeId} {ids : List NodeId} :
    other ∈ ascendingIds ids ↔ other ∈ ids := by
  induction ids with
  | nil => simp [ascendingIds]
  | cons id rest ih =>
      rw [ascendingIds, List.foldr_cons, mem_insertAscending_iff, List.mem_cons]
      exact or_congr_right ih

theorem pairwise_insertAscending {id : NodeId} {ids : List NodeId}
    (h : ids.Pairwise (· < ·)) : (insertAscending id ids).Pairwise (· < ·) := by
  induction ids with
  | nil => simp [insertAscending]
  | cons head rest ih =>
      obtain ⟨hHead, hRest⟩ := List.pairwise_cons.1 h
      unfold insertAscending
      split
      · rename_i hlt
        refine List.pairwise_cons.2 ⟨fun other hmem => ?_, h⟩
        rcases List.mem_cons.1 hmem with rfl | hmem
        · exact hlt
        · exact UInt64.lt_trans hlt (hHead other hmem)
      · split
        · exact h
        · rename_i hlt hne
          refine List.pairwise_cons.2 ⟨fun other hmem => ?_, ih hRest⟩
          rcases mem_insertAscending_iff.1 hmem with rfl | hmem
          · exact UInt64.lt_of_le_of_ne (UInt64.not_lt.1 hlt) (Ne.symm hne)
          · exact hHead other hmem

/-- The identities on cycles strictly ascend. -/
theorem ascending_ascendingIds (ids : List NodeId) : (ascendingIds ids).Pairwise (· < ·) := by
  induction ids with
  | nil => exact List.Pairwise.nil
  | cons id rest ih => exact pairwise_insertAscending ih

/-! ## The order of a node list -/

/-- An order of slots in which each follows all that feed it. -/
structure TopologicalOrder where
  /-- The slots in order; on a graph with a cycle only those neither on nor behind one. -/
  sorted : List Nat
  hasCycle : Bool
  /-- The identities of the nodes on cycles, ascending. -/
  cycleIds : List NodeId
deriving DecidableEq

namespace TopologicalOrder

/-- The worklist of a node list when nothing more can be freed. -/
def drained (nodes : List Node) : Worklist :=
  Worklist.drain (Wiring.dependents nodes) (Wiring.inputCounts nodes)

/-- What the worklist leaves over, as a graph. -/
def leftover (nodes : List Node) : LiveGraph :=
  ⟨(drained nodes).pending.map fun count => 0 < count, Wiring.dependents nodes⟩

/-- The identities of the nodes on cycles. -/
def cycleIdsOf (nodes : List Node) : List NodeId :=
  ascendingIds ((leftover nodes).cycleSlots.filterMap fun slot => nodes[slot]?.map (·.id))

/-- The order of a node list. -/
def ofNodes (nodes : List Node) : TopologicalOrder :=
  let sorted := (drained nodes).sorted
  if sorted.length = nodes.length then ⟨sorted, false, []⟩
  else ⟨sorted, true, cycleIdsOf nodes⟩

/-- The identities of the sorted slots. -/
def sortedIds (order : TopologicalOrder) (nodes : List Node) : List NodeId :=
  order.sorted.filterMap fun slot => nodes[slot]?.map (·.id)

/-- Cycles are named only when there is one. -/
theorem cycleIds_of_not_hasCycle {nodes : List Node} (h : (ofNodes nodes).hasCycle = false) :
    (ofNodes nodes).cycleIds = [] := by
  unfold ofNodes at h ⊢
  dsimp only at h ⊢
  split
  · rfl
  · rename_i hne
    simp [hne] at h

end TopologicalOrder

end TriggerGraph
