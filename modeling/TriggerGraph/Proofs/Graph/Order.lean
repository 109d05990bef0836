import TriggerGraph.Graph.Order
import TriggerGraph.Proofs.Graph.Components
import TriggerGraph.Proofs.Graph.Worklist

/-!
# What the topological order tells

The worklist frees a slot once all slots that feed it are freed, so it frees exactly
the accessible slots: those that neither lie on a cycle nor behind one.  Among what it
leaves over, the component search marks the slots that reach themselves, and a cycle of
the whole list never leaves the leftover.

Main results:

- Theorem `sorted_is_acyclic_part`: the order lists once each slot that is not behind
  a cycle, every one after those that feed it.
- Theorem `cycleIds_are_ids_on_cycles`: the identities named are those of the slots on
  cycles, in ascending order.
-/

namespace TriggerGraph

open Relation

namespace TopologicalOrder

open Wiring

variable {nodes : List Node}

/-! ## The slots that are freed -/

/-- A drained worklist keeps its invariant. -/
theorem invariant_drained (nodes : List Node) :
    Worklist.Invariant (resolved nodes) (drained nodes) [] :=
  Worklist.invariant_drain nodes

/-- The slots that come out are those that wait for nothing in the end. -/
theorem mem_drained_iff {slot : Nat} :
    slot ∈ (drained nodes).sorted ↔
      slot < nodes.length ∧ (drained nodes).pendingAt slot = 0 := by
  have hmem := (invariant_drained nodes).mem_iff slot
  have hqueue : (drained nodes).queue = [] := Worklist.queue_drain nodes
  simpa [hqueue] using hmem

/-- A slot whose feeding slots are all freed is freed. -/
theorem mem_drained_of_inputs {slot : Nat} (hlt : slot < nodes.length)
    (h : ∀ input, Feeds nodes input slot → input ∈ (drained nodes).sorted) :
    slot ∈ (drained nodes).sorted := by
  rw [mem_drained_iff]
  refine ⟨hlt, ?_⟩
  have hpending := (invariant_drained nodes).pending_eq slot (by simpa using hlt)
  rw [hpending, Worklist.waiting, List.count_nil, Nat.add_zero, List.countP_eq_zero]
  intro input hinput
  simpa using h input (feeds_iff_mem_resolved.2 hinput)

/-- The slots that feed a freed slot come before it. -/
theorem mem_front_of_feeds {front back : List Nat} {a b : Nat}
    (hsorted : (drained nodes).sorted = front ++ b :: back) (h : Feeds nodes a b) :
    a ∈ front :=
  (invariant_drained nodes).ordered front b back hsorted a (feeds_iff_mem_resolved.1 h)

/-- Nothing that comes out lies behind a cycle. -/
theorem acc_of_mem_front {front back : List Nat} {slot : Nat}
    (hsorted : (drained nodes).sorted = front ++ slot :: back) : Acc (Feeds nodes) slot := by
  -- the feeding slots stand in a shorter front
  induction hlength : front.length using Nat.strong_induction_on generalizing front slot back with
  | h length ih =>
      constructor
      intro input hinput
      rcases List.append_of_mem (mem_front_of_feeds hsorted hinput) with ⟨before, after, hfront⟩
      have hsplit : (drained nodes).sorted = before ++ input :: (after ++ slot :: back) := by
        rw [hsorted, hfront]
        simp
      refine ih before.length ?_ hsplit rfl
      rw [← hlength, hfront]
      simp

/-- The freed slots are the accessible ones. -/
theorem mem_drained_iff_acc {slot : Nat} (hlt : slot < nodes.length) :
    slot ∈ (drained nodes).sorted ↔ Acc (Feeds nodes) slot := by
  constructor
  · intro hmem
    rcases List.append_of_mem hmem with ⟨front, back, hsorted⟩
    exact acc_of_mem_front hsorted
  · intro hacc
    induction hacc with
    | intro slot _ ih =>
        apply mem_drained_of_inputs hlt
        intro input hinput
        exact ih input hinput (feeds_lt_left hinput)

/-! ## The order -/

@[simp] theorem sorted_ofNodes (nodes : List Node) :
    (ofNodes nodes).sorted = (drained nodes).sorted := by
  unfold ofNodes
  dsimp only
  split <;> rfl

/-- A cycle is reported if not every slot comes out. -/
theorem hasCycle_ofNodes (nodes : List Node) :
    (ofNodes nodes).hasCycle = decide ((drained nodes).sorted.length ≠ nodes.length) := by
  unfold ofNodes
  dsimp only
  split
  · rename_i hlength
    simp [hlength]
  · rename_i hlength
    simp [hlength]

theorem nodup_sorted (nodes : List Node) : (ofNodes nodes).sorted.Nodup := by
  rw [sorted_ofNodes]
  exact (List.nodup_append.1 (invariant_drained nodes).nodup).1

/-- The order lists the slots that are not behind a cycle. -/
theorem mem_sorted_iff {slot : Nat} :
    slot ∈ (ofNodes nodes).sorted ↔ slot < nodes.length ∧ ¬ BehindCycle nodes slot := by
  rw [sorted_ofNodes]
  constructor
  · intro hmem
    have hlt := (mem_drained_iff.1 hmem).1
    exact ⟨hlt, (acc_feeds_iff slot).1 ((mem_drained_iff_acc hlt).1 hmem)⟩
  · rintro ⟨hlt, hbehind⟩
    exact (mem_drained_iff_acc hlt).2 ((acc_feeds_iff slot).2 hbehind)

/-- A cycle is reported exactly when the order leaves a slot out. -/
theorem hasCycle_eq_false_iff_forall_mem :
    (ofNodes nodes).hasCycle = false ↔ ∀ slot < nodes.length, slot ∈ (ofNodes nodes).sorted := by
  have hnodup := nodup_sorted nodes
  rw [hasCycle_ofNodes, decide_eq_false_iff_not, not_not, sorted_ofNodes]
  rw [sorted_ofNodes] at hnodup
  have hsubset : (drained nodes).sorted ⊆ List.range nodes.length := by
    intro slot hslot
    exact List.mem_range.2 (mem_drained_iff.1 hslot).1
  constructor
  · intro hlength slot hslot
    have hperm : (drained nodes).sorted.Perm (List.range nodes.length) :=
      (List.subperm_of_subset hnodup hsubset).perm_of_length_le (by simp [hlength])
    exact hperm.mem_iff.2 (List.mem_range.2 hslot)
  · intro hall
    have hle := List.Nodup.length_le_of_subset hnodup hsubset
    have hrange : (List.range nodes.length).Nodup := List.nodup_range
    have hge := hrange.length_le_of_subset fun slot hslot => hall slot (List.mem_range.1 hslot)
    simp at hle hge
    omega

/-- No cycle is reported exactly when recursion over feeding slots is possible. -/
theorem hasCycle_eq_false_iff :
    (ofNodes nodes).hasCycle = false ↔ WellFounded (Feeds nodes) := by
  rw [hasCycle_eq_false_iff_forall_mem]
  constructor
  · intro hall
    rw [wellFounded_feeds_iff]
    intro slot hcycle
    exact (mem_sorted_iff.1 (hall slot hcycle.lt)).2 ⟨slot, hcycle, ReflTransGen.refl⟩
  · intro hwf slot hlt
    rw [mem_sorted_iff, ← acc_feeds_iff]
    exact ⟨hlt, hwf.apply slot⟩

/-- The slots are those of a list, each after the slots that feed it. -/
structure Orders (nodes : List Node) (slots : List Nat) : Prop where
  mem_iff : ∀ slot, slot ∈ slots ↔ slot < nodes.length
  after : ∀ front slot back, slots = front ++ slot :: back →
    ∀ source, Feeds nodes source slot → source ∈ front

/-- The order of a list without a cycle is complete. -/
theorem orders_sorted (h : (ofNodes nodes).hasCycle = false) :
    Orders nodes (ofNodes nodes).sorted := by
  constructor
  · intro slot
    exact ⟨fun hslot => (mem_sorted_iff.1 hslot).1, hasCycle_eq_false_iff_forall_mem.1 h slot⟩
  · intro front slot back hsplit source hfeeds
    exact mem_front_of_feeds ((sorted_ofNodes nodes).symm.trans hsplit) hfeeds

/-- A sorted slot stands after each slot that feeds it. -/
theorem before_of_feeds {a b : Nat} (h : Feeds nodes a b) (hb : b ∈ (ofNodes nodes).sorted) :
    ∃ i j : Nat, i < j ∧ (ofNodes nodes).sorted[i]? = some a ∧
      (ofNodes nodes).sorted[j]? = some b := by
  rw [sorted_ofNodes] at hb ⊢
  rcases List.append_of_mem hb with ⟨front, back, hsorted⟩
  rcases List.mem_iff_getElem?.1 (mem_front_of_feeds hsorted h) with ⟨i, hi⟩
  have hlt : i < front.length := (List.getElem?_eq_some_iff.1 hi).1
  refine ⟨i, front.length, hlt, ?_, ?_⟩
  · rw [hsorted, List.getElem?_append_left hlt]
    exact hi
  · rw [hsorted]
    simp

/-- The order lists once each slot that is not behind a cycle, every one after those
that feed it, and is complete exactly when there is no cycle. -/
theorem sorted_is_acyclic_part (nodes : List Node) :
    ((ofNodes nodes).hasCycle = false ↔ ∀ slot, ¬ TransGen (Feeds nodes) slot slot) ∧
      (ofNodes nodes).sorted.Nodup ∧
      (∀ slot, slot ∈ (ofNodes nodes).sorted ↔ slot < nodes.length ∧
        ¬ TransGen (Feeds nodes) slot slot ∧
        ¬ ∃ origin, TransGen (Feeds nodes) origin origin ∧
          TransGen (Feeds nodes) origin slot) ∧
      ∀ a b, Feeds nodes a b → b ∈ (ofNodes nodes).sorted →
        ∃ i j : Nat, i < j ∧ (ofNodes nodes).sorted[i]? = some a ∧
          (ofNodes nodes).sorted[j]? = some b := by
  refine ⟨?_, nodup_sorted nodes, ?_, fun a b => before_of_feeds⟩
  · rw [hasCycle_eq_false_iff]
    exact wellFounded_feeds_iff
  · intro slot
    rw [mem_sorted_iff]
    refine and_congr_right fun _ => ?_
    rw [← not_or, not_iff_not]
    constructor
    · rintro ⟨origin, hcycle, hreach⟩
      rcases reflTransGen_iff_eq_or_transGen.1 hreach with rfl | htrans
      · exact Or.inl hcycle
      · exact Or.inr ⟨origin, hcycle, htrans⟩
    · rintro (hcycle | ⟨origin, hcycle, htrans⟩)
      · exact ⟨slot, hcycle, ReflTransGen.refl⟩
      · exact ⟨origin, hcycle, htrans.to_reflTransGen⟩

/-! ## The slots left over -/

/-- Left over are the slots on cycles and behind them. -/
theorem isLive_leftover_iff {slot : Nat} :
    (leftover nodes).isLive slot = true ↔ slot < nodes.length ∧ BehindCycle nodes slot := by
  have hlength : (drained nodes).pending.length = nodes.length := by
    simpa using (invariant_drained nodes).length_eq
  have hlive : (leftover nodes).isLive slot = true ↔ 0 < (drained nodes).pendingAt slot := by
    unfold leftover LiveGraph.isLive Worklist.pendingAt
    rw [List.getD_eq_getElem?_getD, List.getD_eq_getElem?_getD, List.getElem?_map]
    cases (drained nodes).pending[slot]? <;> simp
  rw [hlive]
  have hsorted : slot < nodes.length ∧ (drained nodes).pendingAt slot = 0 ↔
      slot < nodes.length ∧ ¬ BehindCycle nodes slot := by
    rw [← mem_drained_iff, ← sorted_ofNodes]
    exact mem_sorted_iff
  by_cases hlt : slot < nodes.length
  · simp only [hlt, true_and] at hsorted ⊢
    rw [Nat.pos_iff_ne_zero, Ne, hsorted, not_not]
  · have hzero : (drained nodes).pendingAt slot = 0 := by
      simp [Worklist.pendingAt, List.getD_eq_getElem?_getD,
        List.getElem?_eq_none (hlength ▸ Nat.le_of_not_lt hlt)]
    simp [hlt, hzero]

/-- An edge of the leftover is a feeding edge behind a cycle. -/
theorem edge_leftover_iff {a b : Nat} :
    (leftover nodes).Edge a b ↔ Feeds nodes a b ∧ BehindCycle nodes a := by
  have hnext : a < nodes.length → (b ∈ (leftover nodes).next a ↔ Feeds nodes a b) := by
    intro hlt
    rw [feeds_iff_mem_resolved, ← mem_dependentsIn_iff, ← getD_dependents hlt]
    rfl
  unfold LiveGraph.Edge
  rw [isLive_leftover_iff, isLive_leftover_iff]
  constructor
  · rintro ⟨⟨hlt, hbehind⟩, -, hmem⟩
    exact ⟨(hnext hlt).1 hmem, hbehind⟩
  · rintro ⟨hfeeds, hbehind⟩
    have hlt := feeds_lt_left hfeeds
    rcases hbehind with ⟨origin, hcycle, hreach⟩
    exact ⟨⟨hlt, origin, hcycle, hreach⟩,
      ⟨feeds_lt_right hfeeds, origin, hcycle, hreach.tail hfeeds⟩, (hnext hlt).2 hfeeds⟩

/-- A cycle never leaves the leftover. -/
theorem transGen_leftover_iff {slot : Nat} :
    TransGen (leftover nodes).Edge slot slot ↔ OnCycle nodes slot := by
  constructor
  · intro h
    exact TransGen.mono (fun a b hedge => (edge_leftover_iff.1 hedge).1) slot slot h
  · intro hcycle
    have hlift : ∀ target, TransGen (Feeds nodes) slot target →
        TransGen (leftover nodes).Edge slot target := by
      intro target htarget
      induction htarget with
      | single hedge =>
          exact TransGen.single (edge_leftover_iff.2 ⟨hedge, slot, hcycle, ReflTransGen.refl⟩)
      | tail hreach hedge ih =>
          exact ih.tail (edge_leftover_iff.2 ⟨hedge, slot, hcycle, hreach.to_reflTransGen⟩)
    exact hlift slot hcycle

/-! ## The identities on cycles -/

/-- The search among what is left over gives the identities on cycles. -/
theorem mem_cycleIdsOf_iff {id : NodeId} :
    id ∈ cycleIdsOf nodes ↔
      ∃ slot node, nodes[slot]? = some node ∧ node.id = id ∧ OnCycle nodes slot := by
  unfold cycleIdsOf
  rw [mem_ascendingIds_iff, List.mem_filterMap]
  constructor
  · rintro ⟨slot, hslot, hid⟩
    rcases Option.map_eq_some_iff.1 hid with ⟨node, hnode, hid⟩
    rw [LiveGraph.mem_cycleSlots_iff, transGen_leftover_iff] at hslot
    exact ⟨slot, node, hnode, hid, hslot⟩
  · rintro ⟨slot, node, hnode, hid, hcycle⟩
    refine ⟨slot, ?_, ?_⟩
    · rw [LiveGraph.mem_cycleSlots_iff, transGen_leftover_iff]
      exact hcycle
    · simp [hnode, hid]

/-- The identities reported are those of the search, whether or not it was needed. -/
theorem cycleIds_ofNodes (nodes : List Node) : (ofNodes nodes).cycleIds = cycleIdsOf nodes := by
  by_cases hcycle : (ofNodes nodes).hasCycle = true
  · rw [hasCycle_ofNodes, decide_eq_true_eq] at hcycle
    simp [ofNodes, hcycle]
  · rw [Bool.not_eq_true] at hcycle
    rw [cycleIds_of_not_hasCycle hcycle, eq_comm, List.eq_nil_iff_forall_not_mem]
    intro id hid
    rcases mem_cycleIdsOf_iff.1 hid with ⟨slot, node, -, -, hslot⟩
    exact wellFounded_feeds_iff.1 (hasCycle_eq_false_iff.1 hcycle) slot hslot

/-- The identities named are those of the slots on cycles. -/
theorem mem_cycleIds_iff {id : NodeId} :
    id ∈ (ofNodes nodes).cycleIds ↔
      ∃ slot node, nodes[slot]? = some node ∧ node.id = id ∧ OnCycle nodes slot := by
  rw [cycleIds_ofNodes]
  exact mem_cycleIdsOf_iff

/-- Identities are named exactly when a cycle is reported. -/
theorem cycleIds_ne_nil_iff :
    (ofNodes nodes).cycleIds ≠ [] ↔ (ofNodes nodes).hasCycle = true := by
  rw [← not_iff_not, not_not, Bool.not_eq_true, hasCycle_eq_false_iff, wellFounded_feeds_iff,
    List.eq_nil_iff_forall_not_mem]
  constructor
  · intro hnone slot hcycle
    have hnode := List.getElem?_eq_getElem hcycle.lt
    exact hnone _ (mem_cycleIds_iff.2 ⟨slot, _, hnode, rfl, hcycle⟩)
  · intro hnone id hid
    rcases mem_cycleIds_iff.1 hid with ⟨slot, node, -, -, hcycle⟩
    exact hnone slot hcycle

/-- The identities named are those of the slots on cycles and no others, in strictly
ascending order, and there are some exactly when a cycle is reported. -/
theorem cycleIds_are_ids_on_cycles (nodes : List Node) :
    (ofNodes nodes).cycleIds.Pairwise (· < ·) ∧
      (∀ id, id ∈ (ofNodes nodes).cycleIds ↔
        ∃ slot node, nodes[slot]? = some node ∧ node.id = id ∧
          TransGen (Feeds nodes) slot slot) ∧
      ((ofNodes nodes).cycleIds ≠ [] ↔ (ofNodes nodes).hasCycle = true) := by
  refine ⟨?_, fun id => mem_cycleIds_iff, cycleIds_ne_nil_iff⟩
  rw [cycleIds_ofNodes]
  exact ascending_ascendingIds _

end TopologicalOrder

end TriggerGraph
