import TriggerGraph.Node

/-!
# Which slot feeds which

Nodes are addressed by their slots, the places in the node list.  A slot feeds
another when the node there lists its identity as an input; of several nodes with
one identity the first is meant, and an identity that no node has feeds nothing.

Main results:

- Theorem `slotOf?_eq_some_iff`: the slot of an identity is the first one that
  holds it.
- Theorem `mem_inputSlots_iff`: the input slots of a node are the slots of its
  inputs.
-/

namespace TriggerGraph

namespace Wiring

/-- The first slot that holds an identity. -/
def slotOf? : List Node → NodeId → Option Nat
  | [], _ => none
  | node :: rest, id => if node.id = id then some 0 else (slotOf? rest id).map (· + 1)

/-- The slots that feed a node, in the order of its inputs and with repetitions. -/
def inputSlots (nodes : List Node) (node : Node) : List Nat :=
  node.inputs.filterMap (slotOf? nodes)

/-- The slot `a` feeds the slot `b`. -/
def Feeds (nodes : List Node) (a b : Nat) : Prop :=
  ∃ node, nodes[b]? = some node ∧ ∃ id ∈ node.inputs, slotOf? nodes id = some a

/-- The input slots of every slot. -/
def resolved (nodes : List Node) : List (List Nat) := nodes.map (inputSlots nodes)

/-- The slots that list `a` among their inputs, ascending, each as often as it does. -/
def dependentsIn (inputs : List (List Nat)) (a : Nat) : List Nat :=
  inputs.zipIdx.flatMap fun entry => List.replicate (entry.1.count a) entry.2

/-- The slots that every slot feeds. -/
def dependents (nodes : List Node) : List (List Nat) :=
  (List.range nodes.length).map (dependentsIn (resolved nodes))

/-- How many inputs of every slot are nodes of the list. -/
def inputCounts (nodes : List Node) : List Nat := (resolved nodes).map List.length

/-! ## Slots of identities -/

/-- The slot of an identity is the first one that holds it. -/
theorem slotOf?_eq_some_iff {nodes : List Node} {id : NodeId} {slot : Nat} :
    slotOf? nodes id = some slot ↔
      (∃ node, nodes[slot]? = some node ∧ node.id = id) ∧
        ∀ earlier < slot, ∀ node, nodes[earlier]? = some node → node.id ≠ id := by
  induction nodes generalizing slot with
  | nil => simp [slotOf?]
  | cons head rest ih =>
      unfold slotOf?
      by_cases hHead : head.id = id
      · cases slot with
        | zero => simp [hHead]
        | succ slot =>
            simp only [hHead, ↓reduceIte, Option.some.injEq]
            constructor
            · intro h
              cases h
            · rintro ⟨-, hEarlier⟩
              exact absurd hHead (hEarlier 0 (Nat.succ_pos slot) head rfl)
      · cases slot with
        | zero => simp [hHead]
        | succ slot =>
            simp only [hHead, ↓reduceIte, Option.map_eq_some_iff, Nat.add_right_cancel_iff,
              exists_eq_right, ih, List.getElem?_cons_succ]
            refine and_congr_right fun _ => ⟨?_, ?_⟩
            · intro h earlier hlt node hnode
              cases earlier with
              | zero =>
                  have hEq : head = node := by simpa using hnode
                  exact hEq ▸ hHead
              | succ earlier =>
                  exact h earlier (Nat.lt_of_succ_lt_succ hlt) node (by simpa using hnode)
            · intro h earlier hlt node hnode
              exact h (earlier + 1) (Nat.succ_lt_succ hlt) node (by simpa using hnode)

/-- The slot of an identity lies within the list. -/
theorem slotOf?_lt {nodes : List Node} {id : NodeId} {slot : Nat}
    (h : slotOf? nodes id = some slot) : slot < nodes.length := by
  obtain ⟨⟨node, hnode, -⟩, -⟩ := slotOf?_eq_some_iff.1 h
  exact (List.getElem?_eq_some_iff.1 hnode).1

/-- The input slots of a node are the slots of its inputs. -/
theorem mem_inputSlots_iff {nodes : List Node} {node : Node} {slot : Nat} :
    slot ∈ inputSlots nodes node ↔ ∃ id ∈ node.inputs, slotOf? nodes id = some slot := by
  simp [inputSlots, List.mem_filterMap]

end Wiring

end TriggerGraph
