import Mathlib.Data.List.Forall2
import TriggerGraph.Graph.Basic
import TriggerGraph.Proofs.Graph.Order

/-!
# What building a graph yields

A list becomes a graph exactly when its identities are distinct and each input names a
node.  In a built graph the identity of a node leads to its slot, and the input slots
are the slots of its inputs one by one.

Main results:

- Theorem `slotIn?_of_indexFrom`: what an index has after a stretch of the list.
- Theorem `isOk_build_iff`: which lists can be built.
- Theorem `slot?_of_build`: a node is found at its own slot.
- Theorem `forall₂_inputsAt`: the input slots of a slot are those of the inputs listed
  there, in order.
-/

namespace TriggerGraph

namespace Graph

open Wiring

/-! ## The index -/

section Index

variable {index out : List (NodeId × Nat)} {stretch : List Node} {slot : Nat}

theorem slotIn?_cons (node id : NodeId) :
    slotIn? ((node, slot) :: index) id = if node = id then some slot else slotIn? index id := by
  by_cases hid : node = id
  · simp [slotIn?, hid]
  · simp [slotIn?, List.lookup_cons, beq_false_of_ne (Ne.symm hid), hid]

theorem contains_map_fst (id : NodeId) :
    (index.map Prod.fst).contains id = (slotIn? index id).isSome := by
  induction index with
  | nil => rfl
  | cons entry rest ih =>
      obtain ⟨node, slot⟩ := entry
      rw [List.map_cons, List.contains_cons, ih, slotIn?_cons]
      by_cases hid : node = id
      · simp [hid]
      · simp [hid, beq_false_of_ne (Ne.symm hid)]

/-- A stretch is indexed exactly when its identities are distinct and not in the index yet. -/
theorem isOk_indexFrom_iff :
    (∃ out, indexFrom slot index stretch = .ok out) ↔
      (stretch.map (·.id)).Nodup ∧ ∀ node ∈ stretch, slotIn? index node.id = none := by
  induction stretch generalizing slot index with
  | nil => simp [indexFrom]
  | cons node rest ih =>
      unfold indexFrom
      cases hseen : slotIn? index node.id with
      | some earlier => simp [hseen]
      | none =>
          dsimp only
          rw [ih, List.map_cons, List.nodup_cons, List.forall_mem_cons]
          -- the rest must avoid the identity just entered besides those entered before
          have hfresh : (∀ other ∈ rest, slotIn? ((node.id, slot) :: index) other.id = none) ↔
              node.id ∉ rest.map (·.id) ∧ ∀ other ∈ rest, slotIn? index other.id = none := by
            simp only [slotIn?_cons, List.mem_map, not_exists, not_and]
            constructor
            · intro h
              refine ⟨fun other hother hid => ?_, fun other hother => ?_⟩
              · simpa [hid] using h other hother
              · have hnone := h other hother
                split at hnone
                · cases hnone
                · exact hnone
            · rintro ⟨hnew, hrest⟩ other hother
              rw [if_neg fun hid => hnew other hother hid.symm, hrest other hother]
          rw [hfresh]
          tauto

/-- The index has what it had, and for the identities of the stretch their places counted
from its slot. -/
theorem slotIn?_of_indexFrom (h : indexFrom slot index stretch = .ok out) (id : NodeId) :
    slotIn? out id = (slotIn? index id).or ((slotOf? stretch id).map (slot + ·)) := by
  induction stretch generalizing slot index with
  | nil =>
      cases h
      simp [slotOf?]
  | cons node rest ih =>
      unfold indexFrom at h
      cases hseen : slotIn? index node.id with
      | some earlier => simp [hseen] at h
      | none =>
          rw [hseen] at h
          rw [ih h, slotIn?_cons, slotOf?]
          by_cases hid : node.id = id
          · subst hid
            simp [hseen]
          · rw [if_neg hid, if_neg hid, Option.map_map]
            refine congrArg (fun f => (slotIn? index id).or ((slotOf? rest id).map f)) ?_
            funext place
            simp only [Function.comp_apply]
            omega

end Index

variable {nodes : List Node}

/-- The index of a list has the first slot of every identity. -/
theorem slotIn?_eq {index : List (NodeId × Nat)} (h : indexFrom 0 [] nodes = .ok index) :
    slotIn? index = slotOf? nodes := by
  funext id
  rw [slotIn?_of_indexFrom h]
  simp [slotIn?]

/-! ## Resolved inputs -/

section Resolution

variable {slotOf : NodeId → Option Nat}

/-- Inputs are resolved one by one to their slots. -/
theorem resolveInputs_eq_ok_iff {node : NodeId} {inputs : List NodeId} {slots : List Nat} :
    resolveInputs slotOf node inputs = .ok slots ↔
      List.Forall₂ (fun input slot => slotOf input = some slot) inputs slots := by
  induction inputs generalizing slots with
  | nil =>
      cases slots <;> simp [resolveInputs]
  | cons input rest ih =>
      unfold resolveInputs
      cases hslot : slotOf input with
      | none => cases slots <;> simp [hslot]
      | some slot =>
          cases hrest : resolveInputs slotOf node rest with
          | error error =>
              cases slots <;> simp [Except.map, ← ih, hrest]
          | ok others =>
              cases slots <;> simp [Except.map, ← ih, hrest, hslot]

/-- The inputs of all nodes are resolved node by node. -/
theorem resolveAll_eq_ok_iff {stretch : List Node} {inputSlots : List (List Nat)} :
    resolveAll slotOf stretch = .ok inputSlots ↔
      List.Forall₂ (fun node slots => resolveInputs slotOf node.id node.inputs = .ok slots)
        stretch inputSlots := by
  induction stretch generalizing inputSlots with
  | nil => cases inputSlots <;> simp [resolveAll]
  | cons node rest ih =>
      unfold resolveAll
      cases hnode : resolveInputs slotOf node.id node.inputs with
      | error error => cases inputSlots <;> simp [hnode]
      | ok slots =>
          cases hrest : resolveAll slotOf rest with
          | error error => cases inputSlots <;> simp [Except.map, ← ih, hrest]
          | ok others => cases inputSlots <;> simp [Except.map, ← ih, hrest, hnode]

end Resolution

theorem exists_forall₂_iff {α β : Type} {r : α → β → Prop} {xs : List α} :
    (∃ ys, List.Forall₂ r xs ys) ↔ ∀ x ∈ xs, ∃ y, r x y := by
  induction xs with
  | nil => exact ⟨by simp, fun _ => ⟨[], List.Forall₂.nil⟩⟩
  | cons x xs ih =>
      rw [List.forall_mem_cons, ← ih]
      constructor
      · rintro ⟨_, hxs⟩
        cases hxs with
        | cons hx hrest => exact ⟨⟨_, hx⟩, ⟨_, hrest⟩⟩
      · rintro ⟨⟨y, hx⟩, ⟨ys, hrest⟩⟩
        exact ⟨y :: ys, List.Forall₂.cons hx hrest⟩

/-! ## What can be built -/

/-- A list can be built exactly when its identities are distinct and each input names
a node of it. -/
theorem isOk_build_iff :
    (∃ graph, build nodes = .ok graph) ↔
      (nodes.map (·.id)).Nodup ∧
        ∀ node ∈ nodes, ∀ input ∈ node.inputs, ∃ slot, slotOf? nodes input = some slot := by
  have hindex : (∃ index, indexFrom 0 [] nodes = .ok index) ↔ (nodes.map (·.id)).Nodup := by
    simp [isOk_indexFrom_iff, slotIn?]
  have hresolve : (∃ inputSlots, resolveAll (slotOf? nodes) nodes = .ok inputSlots) ↔
      ∀ node ∈ nodes, ∀ input ∈ node.inputs, ∃ slot, slotOf? nodes input = some slot := by
    simp only [resolveAll_eq_ok_iff, exists_forall₂_iff, resolveInputs_eq_ok_iff]
  rw [← hindex, ← hresolve]
  constructor
  · rintro ⟨graph, hbuild⟩
    obtain ⟨index, inputSlots, hindexed, hslots, -⟩ := build_eq_ok hbuild
    exact ⟨⟨index, hindexed⟩, inputSlots, slotIn?_eq hindexed ▸ hslots⟩
  · rintro ⟨⟨index, hindexed⟩, inputSlots, hslots⟩
    refine ⟨⟨nodes, index, inputSlots, TopologicalOrder.ofNodes nodes⟩, ?_⟩
    simp [build, hindexed, slotIn?_eq hindexed, hslots, Except.map]

/-! ## Built graphs -/

variable {graph : Graph}

theorem nodup_of_build (h : build nodes = .ok graph) : (nodes.map (·.id)).Nodup :=
  (isOk_build_iff.1 ⟨graph, h⟩).1

/-- The input slots of a slot are those of the inputs listed there, in order. -/
theorem forall₂_inputsAt (h : build nodes = .ok graph) {slot : Nat} {node : Node}
    (hnode : nodes[slot]? = some node) :
    List.Forall₂ (fun input source => slotOf? nodes input = some source) node.inputs
      (graph.inputsAt slot) := by
  obtain ⟨index, inputSlots, hindex, hslots, rfl⟩ := build_eq_ok h
  rw [slotIn?_eq hindex] at hslots
  have hall := resolveAll_eq_ok_iff.1 hslots
  rcases List.getElem?_eq_some_iff.1 hnode with ⟨hlt, rfl⟩
  have hlt' : slot < inputSlots.length := hall.length_eq ▸ hlt
  have hinputs := resolveInputs_eq_ok_iff.1 (hall.get hlt hlt')
  simpa [inputsAt, List.getD_eq_getElem?_getD, hlt'] using hinputs

/-- Distinct identities lead to the slots that hold them. -/
theorem slotOf?_of_nodup (h : (nodes.map (·.id)).Nodup) {slot : Nat} {node : Node}
    (hnode : nodes[slot]? = some node) : slotOf? nodes node.id = some slot := by
  rw [slotOf?_eq_some_iff]
  refine ⟨⟨node, hnode, rfl⟩, ?_⟩
  intro earlier hlt other hother hid
  have hsame : (nodes.map (·.id))[earlier]? = (nodes.map (·.id))[slot]? := by
    simp [hother, hnode, hid]
  have hbound : earlier < (nodes.map (·.id)).length := by
    simpa using (List.getElem?_eq_some_iff.1 hother).1
  exact Nat.ne_of_lt hlt ((List.getElem?_inj hbound h).1 hsame)

/-- The index of a graph has the first slot of every identity. -/
theorem slot?_eq (h : build nodes = .ok graph) : graph.slot? = slotOf? nodes := by
  obtain ⟨index, inputSlots, hindex, -, rfl⟩ := build_eq_ok h
  exact slotIn?_eq hindex

/-- A node is found at its own slot. -/
theorem slot?_of_build (h : build nodes = .ok graph) {slot : Nat} {node : Node}
    (hnode : nodes[slot]? = some node) : graph.slot? node.id = some slot := by
  rw [slot?_eq h]
  exact slotOf?_of_nodup (nodup_of_build h) hnode

/-- The node of an identity is the one that holds it. -/
theorem node?_eq_some_iff (h : build nodes = .ok graph) {id : NodeId} {node : Node} :
    graph.node? id = some node ↔ node ∈ nodes ∧ node.id = id := by
  unfold node?
  rw [nodes_of_build h]
  constructor
  · intro hnode
    rcases Option.bind_eq_some_iff.1 hnode with ⟨slot, hslot, hnode⟩
    rw [slot?_eq h] at hslot
    rcases (slotOf?_eq_some_iff.1 hslot).1 with ⟨other, hother, hid⟩
    have heq : node = other := Option.some.inj (hnode.symm.trans hother)
    subst heq
    exact ⟨List.mem_of_getElem? hnode, hid⟩
  · rintro ⟨hmem, rfl⟩
    rcases List.mem_iff_getElem?.1 hmem with ⟨slot, hnode⟩
    rw [slot?_of_build h hnode]
    exact hnode

/-- A node of a built graph is known by its identity. -/
theorem eq_of_id_eq (h : build nodes = .ok graph) {node other : Node} (hnode : node ∈ nodes)
    (hother : other ∈ nodes) (hid : node.id = other.id) : node = other := by
  have hfind := (node?_eq_some_iff h).2 ⟨hnode, hid⟩
  exact Option.some.inj (hfind.symm.trans ((node?_eq_some_iff h).2 ⟨hother, rfl⟩))

/-- Each input of a node leads to a node. -/
theorem exists_node?_of_mem_inputs (h : build nodes = .ok graph) {node : Node}
    (hnode : node ∈ nodes) {input : NodeId} (hinput : input ∈ node.inputs) :
    ∃ source, graph.node? input = some source := by
  rcases (isOk_build_iff.1 ⟨graph, h⟩).2 node hnode input hinput with ⟨slot, hslot⟩
  rcases (slotOf?_eq_some_iff.1 hslot).1 with ⟨source, hsource, hid⟩
  exact ⟨source, (node?_eq_some_iff h).2 ⟨List.mem_of_getElem? hsource, hid⟩⟩

end Graph

end TriggerGraph
