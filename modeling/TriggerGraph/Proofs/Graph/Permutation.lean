import TriggerGraph.Proofs.Graph.Publishable

/-!
# The order in which nodes are listed

Slots are places in the node list, so all that is said of slots changes with the order of the
list.  When identities are distinct, though, each node of a list has one slot in every list
that has all its nodes, and slots feed each other there as they did before.  So nothing that is
said of nodes by their identities depends on the order: which lie on cycles, which can be
sorted, and whether the list can be published.

Main results:

- Theorem `Wiring.Feeds.moved`: slots feed each other wherever their nodes are moved to.
- Theorems `TopologicalOrder.hasCycle_eq_of_perm`, `TopologicalOrder.cycleIds_eq_of_perm` and
  `TopologicalOrder.mem_sortedIds_iff_of_perm`: what a permutation leaves of the order.
- Theorem `Validation.validate_eq_nil_iff_of_perm`: permutations of a list are accepted alike.
-/

namespace TriggerGraph

open Relation

/-! ## Slots in another list -/

namespace Wiring

variable {nodes others : List Node} {node : Node} {slot place : Nat}

/-- The slot that holds in another list the node of a slot. -/
def movedTo (nodes others : List Node) (slot : Nat) : Nat :=
  (nodes[slot]?.bind fun node => slotOf? others node.id).getD others.length

/-- A slot moves to the place of its node in the other list. -/
theorem movedTo_eq (hdistinct : (others.map (·.id)).Nodup) (hnode : nodes[slot]? = some node)
    (hplace : others[place]? = some node) : movedTo nodes others slot = place := by
  have hslot := Graph.slotOf?_of_nodup hdistinct hplace
  rw [movedTo, hnode, Option.bind_some, hslot, Option.getD_some]

/-- The slot of a node in one list leads to its slot in another that has all its nodes. -/
theorem getElem?_movedTo (hsub : nodes ⊆ others) (hdistinct : (others.map (·.id)).Nodup)
    (hnode : nodes[slot]? = some node) : others[movedTo nodes others slot]? = some node := by
  have hmem := hsub (List.mem_of_getElem? hnode)
  rcases List.mem_iff_getElem?.1 hmem with ⟨place, hplace⟩
  rw [movedTo_eq hdistinct hnode hplace]
  exact hplace

/-- Slots feed each other wherever their nodes are moved to. -/
theorem Feeds.moved (hsub : nodes ⊆ others) (hdistinct : (others.map (·.id)).Nodup)
    {a b : Nat} (h : Feeds nodes a b) :
    Feeds others (movedTo nodes others a) (movedTo nodes others b) := by
  rcases h with ⟨node, hnode, id, hid, hslot⟩
  rcases (slotOf?_eq_some_iff.1 hslot).1 with ⟨source, hsource, rfl⟩
  exact ⟨node, getElem?_movedTo hsub hdistinct hnode, source.id, hid,
    Graph.slotOf?_of_nodup hdistinct (getElem?_movedTo hsub hdistinct hsource)⟩

/-- A slot on a cycle stays on one. -/
theorem OnCycle.moved (hsub : nodes ⊆ others) (hdistinct : (others.map (·.id)).Nodup)
    (h : OnCycle nodes slot) : OnCycle others (movedTo nodes others slot) :=
  TransGen.lift (movedTo nodes others)
    (fun _ _ (hfeeds : Feeds nodes _ _) => hfeeds.moved hsub hdistinct) slot slot h

/-- A slot behind a cycle stays behind one. -/
theorem BehindCycle.moved (hsub : nodes ⊆ others) (hdistinct : (others.map (·.id)).Nodup)
    (h : BehindCycle nodes slot) : BehindCycle others (movedTo nodes others slot) := by
  rcases h with ⟨origin, hcycle, hreach⟩
  exact ⟨movedTo nodes others origin, hcycle.moved hsub hdistinct,
    ReflTransGen.lift (movedTo nodes others)
      (fun _ _ (hfeeds : Feeds nodes _ _) => hfeeds.moved hsub hdistinct) origin slot hreach⟩

end Wiring

/-! ## The topological order -/

namespace TopologicalOrder

open Wiring

variable {nodes others : List Node} {id : NodeId}

theorem nodup_of_perm (hperm : nodes.Perm others) (hdistinct : (nodes.map (·.id)).Nodup) :
    (others.map (·.id)).Nodup :=
  (hperm.map _).nodup_iff.1 hdistinct

/-- Nodes of a list without a cycle make no cycle by themselves. -/
theorem not_onCycle_of_subset (hsub : others ⊆ nodes) (hdistinct : (nodes.map (·.id)).Nodup)
    (h : ∀ slot, ¬ OnCycle nodes slot) (slot : Nat) : ¬ OnCycle others slot :=
  fun hcycle => h _ (hcycle.moved hsub hdistinct)

/-- Permutations of a list have cycles alike. -/
theorem hasCycle_eq_of_perm (hperm : nodes.Perm others) (hdistinct : (nodes.map (·.id)).Nodup) :
    (ofNodes nodes).hasCycle = (ofNodes others).hasCycle := by
  rw [← Bool.not_inj_iff, Bool.eq_iff_iff, Bool.not_eq_true', Bool.not_eq_true',
    hasCycle_eq_false_iff, hasCycle_eq_false_iff, wellFounded_feeds_iff, wellFounded_feeds_iff]
  exact ⟨not_onCycle_of_subset hperm.symm.subset hdistinct,
    not_onCycle_of_subset hperm.subset (nodup_of_perm hperm hdistinct)⟩

/-- The identities on cycles are not lost in a permutation. -/
theorem mem_cycleIds_of_perm (hperm : nodes.Perm others)
    (hdistinct : (others.map (·.id)).Nodup) (h : id ∈ (ofNodes nodes).cycleIds) :
    id ∈ (ofNodes others).cycleIds := by
  rcases mem_cycleIds_iff.1 h with ⟨slot, node, hnode, rfl, hcycle⟩
  exact mem_cycleIds_iff.2 ⟨_, node, getElem?_movedTo hperm.subset hdistinct hnode, rfl,
    hcycle.moved hperm.subset hdistinct⟩

theorem pairwise_cycleIds (nodes : List Node) : (ofNodes nodes).cycleIds.Pairwise (· < ·) := by
  rw [cycleIds_ofNodes]
  exact ascending_ascendingIds _

/-- Permutations of a list have the same identities on cycles. -/
theorem cycleIds_eq_of_perm (hperm : nodes.Perm others) (hdistinct : (nodes.map (·.id)).Nodup) :
    (ofNodes nodes).cycleIds = (ofNodes others).cycleIds := by
  refine (pairwise_cycleIds nodes).eq_of_mem_iff (pairwise_cycleIds others) fun id => ?_
  exact ⟨mem_cycleIds_of_perm hperm (nodup_of_perm hperm hdistinct),
    mem_cycleIds_of_perm hperm.symm hdistinct⟩

/-- The identities sorted are those of the slots not behind a cycle. -/
theorem mem_sortedIds_iff :
    id ∈ (ofNodes nodes).sortedIds nodes ↔
      ∃ slot node, nodes[slot]? = some node ∧ node.id = id ∧ ¬ BehindCycle nodes slot := by
  unfold sortedIds
  rw [List.mem_filterMap]
  constructor
  · rintro ⟨slot, hslot, hid⟩
    rcases Option.map_eq_some_iff.1 hid with ⟨node, hnode, hid⟩
    exact ⟨slot, node, hnode, hid, (mem_sorted_iff.1 hslot).2⟩
  · rintro ⟨slot, node, hnode, hid, hbehind⟩
    have hlt := (List.getElem?_eq_some_iff.1 hnode).1
    exact ⟨slot, mem_sorted_iff.2 ⟨hlt, hbehind⟩, by rw [hnode, Option.map_some, hid]⟩

/-- A node that is ordered in one list is ordered in the other. -/
theorem mem_sortedIds_of_perm (hperm : nodes.Perm others)
    (hdistinct : (nodes.map (·.id)).Nodup) (h : id ∈ (ofNodes nodes).sortedIds nodes) :
    id ∈ (ofNodes others).sortedIds others := by
  rcases mem_sortedIds_iff.1 h with ⟨slot, node, hnode, rfl, hbehind⟩
  have hplace := getElem?_movedTo hperm.subset (nodup_of_perm hperm hdistinct) hnode
  refine mem_sortedIds_iff.2 ⟨_, node, hplace, rfl, fun hmoved => hbehind ?_⟩
  -- moved there and back, the node is at its slot again
  have hback := hmoved.moved hperm.symm.subset hdistinct
  rwa [movedTo_eq hdistinct hplace hnode] at hback

/-- Permutations of a list have the same identities sorted. -/
theorem mem_sortedIds_iff_of_perm (hperm : nodes.Perm others)
    (hdistinct : (nodes.map (·.id)).Nodup) :
    id ∈ (ofNodes nodes).sortedIds nodes ↔ id ∈ (ofNodes others).sortedIds others :=
  ⟨mem_sortedIds_of_perm hperm hdistinct,
    mem_sortedIds_of_perm hperm.symm (nodup_of_perm hperm hdistinct)⟩

end TopologicalOrder

/-! ## Validation -/

namespace Validation

variable {nodes others : List Node} {declared : Nat}

/-- The only node of a kind is the only one of a permutation. -/
theorem filter_eq_singleton_of_perm {keep : Node → Bool} {node : Node}
    (hperm : nodes.Perm others) (hone : nodes.filter keep = [node]) :
    others.filter keep = [node] := by
  rw [← List.perm_singleton, ← hone]
  exact (hperm.filter keep).symm

variable [SchemaEngine]

/-- A permutation of a list that can be published can be published. -/
theorem Publishable.of_perm (hperm : nodes.Perm others) (h : Publishable nodes declared) :
    Publishable others declared := by
  have hmem : ∀ {node}, node ∈ others ↔ node ∈ nodes := hperm.symm.mem_iff
  rcases h.final with ⟨final, hone, hlength, hboolean⟩
  exact {
    acyclic := TopologicalOrder.not_onCycle_of_subset hperm.symm.subset h.distinct h.acyclic
    distinct := TopologicalOrder.nodup_of_perm hperm h.distinct
    known := by simpa only [hmem] using h.known
    final := ⟨final, filter_eq_singleton_of_perm hperm hone, hlength,
      by simpa only [hmem] using hboolean⟩
    detects := by simpa only [hmem] using h.detects
    windows := by simpa only [hmem] using h.windows
    paths := by simpa only [hmem] using h.paths
    wiring := by simpa only [hmem] using h.wiring
    count := h.count.trans hperm.length_eq }

/-- A list that is accepted is accepted in another order. -/
theorem accepted_of_perm (hperm : nodes.Perm others) (h : validate nodes declared = []) :
    validate others declared = [] :=
  ((publishable_of_accepted h).of_perm hperm).accepted

/-- Permutations of a list are accepted alike. -/
theorem validate_eq_nil_iff_of_perm (hperm : nodes.Perm others) :
    validate nodes declared = [] ↔ validate others declared = [] :=
  ⟨accepted_of_perm hperm, accepted_of_perm hperm.symm⟩

end Validation

end TriggerGraph
