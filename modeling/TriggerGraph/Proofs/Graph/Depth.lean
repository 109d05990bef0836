import Mathlib.Order.Lattice.Nat
import TriggerGraph.Proofs.Graph.Order

/-!
# The depth of slots

The depth of a slot is the length of the longest chain of feeding slots that ends there.  A
worklist frees what waits first in, first out.  A slot joins the queue when the last of its
inputs is freed, so it is one deeper than the slot being freed, and what waits never spans
more than two depths.  Hence slots are freed depth by depth, and those without inputs, which
wait from the start, in the order of the list.

Main results:

- Theorem `Wiring.isGreatest_depth`: without a cycle there is a longest chain.
- Theorems `Worklist.Leveled.release` and `Worklist.Leveled.step`: what waits stays within two
  depths.
- Theorem `TopologicalOrder.pairwise_precedes_sorted`: the order ascends in depth.
-/

namespace TriggerGraph

/-! ## Chains of feeding slots -/

namespace Wiring

/-- A chain of feeding slots of the given length ends at the slot. -/
inductive Chain (nodes : List Node) : Nat → Nat → Prop
  | start {slot : Nat} (hlt : slot < nodes.length) : Chain nodes 0 slot
  | extend {length input slot : Nat} (h : Chain nodes length input)
      (hfeeds : Feeds nodes input slot) : Chain nodes (length + 1) slot

/-- The length of the longest chain that ends at the slot. -/
noncomputable def depth (nodes : List Node) (slot : Nat) : Nat :=
  sSup {length | Chain nodes length slot}

/-- One slot may stand before another in an order by depth, which keeps the slots without
inputs in the order of the list. -/
def Precedes (nodes : List Node) (a b : Nat) : Prop :=
  depth nodes a ≤ depth nodes b ∧ (depth nodes b = 0 → a < b)

variable {nodes : List Node} {slot : Nat}

/-- A chain is no longer than its last slot is far from the beginning of the order. -/
theorem Chain.length_le {length : Nat} (h : Chain nodes length slot) {place : Nat}
    (hplace : (TopologicalOrder.ofNodes nodes).sorted[place]? = some slot) : length ≤ place := by
  induction h generalizing place with
  | start => exact Nat.zero_le place
  | @extend length input slot _ hfeeds ih =>
      rcases TopologicalOrder.before_of_feeds hfeeds (List.mem_of_getElem? hplace) with
        ⟨i, j, hij, hi, hj⟩
      have hlt := (List.getElem?_eq_some_iff.1 hj).1
      have hsame : j = place :=
        (List.getElem?_inj hlt (TopologicalOrder.nodup_sorted nodes)).1 (hj.trans hplace.symm)
      have hle := ih hi
      omega

section Acyclic

variable (hcycle : (TopologicalOrder.ofNodes nodes).hasCycle = false)

include hcycle

/-- Without a cycle there is a longest chain. -/
theorem isGreatest_depth (hlt : slot < nodes.length) :
    IsGreatest {length | Chain nodes length slot} (depth nodes slot) := by
  have hmem := TopologicalOrder.hasCycle_eq_false_iff_forall_mem.1 hcycle slot hlt
  rcases List.mem_iff_getElem?.1 hmem with ⟨place, hplace⟩
  have hbound : BddAbove {length | Chain nodes length slot} :=
    ⟨place, fun length hchain => Chain.length_le hchain hplace⟩
  exact ⟨Nat.sSup_mem ⟨0, Chain.start hlt⟩ hbound, fun length hchain => le_csSup hbound hchain⟩

/-- What feeds a slot is less deep. -/
theorem depth_lt_of_feeds {input : Nat} (h : Feeds nodes input slot) :
    depth nodes input < depth nodes slot := by
  have hinput := (isGreatest_depth hcycle (feeds_lt_left h)).1
  exact (isGreatest_depth hcycle (feeds_lt_right h)).2 (Chain.extend hinput h)

/-- A slot is at most one deeper than what feeds it. -/
theorem depth_le_succ (hlt : slot < nodes.length) {level : Nat}
    (h : ∀ input, Feeds nodes input slot → depth nodes input ≤ level) :
    depth nodes slot ≤ level + 1 := by
  have hlongest : Chain nodes (depth nodes slot) slot := (isGreatest_depth hcycle hlt).1
  generalize depth nodes slot = length at hlongest
  cases hlongest with
  | start => exact Nat.zero_le _
  | extend hchain hfeeds =>
      have hle := (isGreatest_depth hcycle (feeds_lt_left hfeeds)).2 hchain
      exact Nat.succ_le_succ (hle.trans (h _ hfeeds))

/-- The slots of depth zero are those that nothing feeds. -/
theorem depth_eq_zero_iff (hlt : slot < nodes.length) :
    depth nodes slot = 0 ↔ ∀ input, ¬ Feeds nodes input slot := by
  constructor
  · intro hzero input hfeeds
    have hdeeper := depth_lt_of_feeds hcycle hfeeds
    omega
  · intro hnone
    have hlongest : Chain nodes (depth nodes slot) slot := (isGreatest_depth hcycle hlt).1
    generalize depth nodes slot = length at hlongest
    cases hlongest with
    | start => rfl
    | extend _ hfeeds => exact absurd hfeeds (hnone _)

end Acyclic

end Wiring

/-! ## Freeing depth by depth -/

namespace Worklist

open Wiring

/-- The worklist has come to a level: the slots freed or waiting ascend in depth, none that is
freed is deeper, and what waits is of the level or one deeper. -/
structure Leveled (nodes : List Node) (w : Worklist) (level : Nat) : Prop where
  ascending : (w.sorted ++ w.queue).Pairwise (Precedes nodes)
  freed_le : ∀ slot ∈ w.sorted, depth nodes slot ≤ level
  le_waiting : ∀ slot ∈ w.queue, level ≤ depth nodes slot
  waiting_le : ∀ slot ∈ w.queue, depth nodes slot ≤ level + 1

variable {nodes : List Node} {w : Worklist} {level : Nat}

section Acyclic

variable (hcycle : (TopologicalOrder.ofNodes nodes).hasCycle = false)

include hcycle

/-- At the start the slots without inputs wait in their order. -/
theorem leveled_start : Leveled nodes (start (inputCounts nodes)) 0 := by
  have hzero : ∀ slot ∈ (start (inputCounts nodes)).queue, depth nodes slot = 0 := by
    intro slot hslot
    rcases List.mem_filter.1 hslot with ⟨hrange, hcount⟩
    have hlt : slot < nodes.length := by simpa [inputCounts] using hrange
    refine (depth_eq_zero_iff hcycle hlt).2 fun input hfeeds => ?_
    rw [feeds_iff_mem_resolved] at hfeeds
    have hnil : (resolved nodes).getD slot [] = [] := by
      simpa [inputCounts, List.getD_eq_getElem?_getD, hlt] using hcount
    rw [hnil] at hfeeds
    cases hfeeds
  refine ⟨?_, by simp [start], fun slot _ => Nat.zero_le _, ?_⟩
  · have hrange : (start (inputCounts nodes)).queue.Pairwise (· < ·) :=
      List.pairwise_lt_range.filter _
    refine hrange.imp_of_mem fun {a b} ha hb hlt => ⟨?_, fun _ => hlt⟩
    rw [hzero a ha]
    exact Nat.zero_le _
  · intro slot hslot
    rw [hzero slot hslot]
    exact Nat.zero_le _

omit hcycle in
/-- A slot one deeper than the level may join what waits. -/
theorem Leveled.join {slot : Nat} {next : Worklist} (h : Leveled nodes w level)
    (hdepth : depth nodes slot = level + 1) (hsorted : next.sorted = w.sorted)
    (hqueue : next.queue = w.queue ++ [slot]) : Leveled nodes next level := by
  have hbefore : ∀ other ∈ w.sorted ++ w.queue, Precedes nodes other slot := by
    intro other hother
    refine ⟨?_, fun hzero => by omega⟩
    rcases List.mem_append.1 hother with hfreed | hwaits
    · have hle := h.freed_le other hfreed
      omega
    · have hle := h.waiting_le other hwaits
      omega
  refine ⟨?_, hsorted ▸ h.freed_le, ?_, ?_⟩
  · rw [hsorted, hqueue, ← List.append_assoc]
    refine List.pairwise_append.2 ⟨h.ascending, List.pairwise_singleton _ _, ?_⟩
    intro other hother last hlast
    rw [List.mem_singleton.1 hlast]
    exact hbefore other hother
  · rw [hqueue, List.forall_mem_append, List.forall_mem_singleton, hdepth]
    exact ⟨h.le_waiting, Nat.le_succ level⟩
  · rw [hqueue, List.forall_mem_append, List.forall_mem_singleton, hdepth]
    exact ⟨h.waiting_le, Nat.le_refl _⟩

/-- Taking off an occurrence keeps the level: a slot joins only when all its inputs are freed,
and then it is one deeper than the level. -/
theorem Leveled.release {slot : Nat} {todo : List Nat}
    (hinvariant : Invariant (resolved nodes) w (slot :: todo)) (h : Leveled nodes w level)
    (hdeeper : level < depth nodes slot) : Leveled nodes (w.release slot) level := by
  by_cases hleft : w.pendingAt slot - 1 = 0
  · have hlt : slot < nodes.length := by
      simpa using hinvariant.todo_lt slot List.mem_cons_self
    have hpending := hinvariant.pending_eq slot (by simpa using hlt)
    rw [List.count_cons_self] at hpending
    have hwaiting : waiting (resolved nodes) w slot = 0 := by omega
    have hinputs : ∀ input, Feeds nodes input slot → depth nodes input ≤ level := by
      intro input hfeeds
      have hfreed := List.countP_eq_zero.1 hwaiting input (feeds_iff_mem_resolved.1 hfeeds)
      exact h.freed_le input (by simpa using hfreed)
    have hdepth : depth nodes slot = level + 1 :=
      Nat.le_antisymm (depth_le_succ hcycle hlt hinputs) hdeeper
    exact h.join hdepth (sorted_release w slot) (by simp [Worklist.release, hleft])
  · have hqueue : (w.release slot).queue = w.queue := by
      simp [Worklist.release, hleft]
    exact ⟨by rw [hqueue, sorted_release]; exact h.ascending, h.freed_le,
      by rw [hqueue]; exact h.le_waiting, by rw [hqueue]; exact h.waiting_le⟩

theorem Leveled.foldl_release {todo : List Nat}
    (hinvariant : Invariant (resolved nodes) w todo) (h : Leveled nodes w level)
    (hdeeper : ∀ slot ∈ todo, level < depth nodes slot) :
    Leveled nodes (todo.foldl Worklist.release w) level := by
  induction todo generalizing w with
  | nil => exact h
  | cons slot todo ih =>
      rw [List.forall_mem_cons] at hdeeper
      exact ih hinvariant.release (h.release hcycle hinvariant hdeeper.1) hdeeper.2

omit hcycle in
/-- The first slot that waits takes the level to its own depth. -/
theorem Leveled.pop {slot : Nat} {rest : List Nat} (h : Leveled nodes w level)
    (hqueue : w.queue = slot :: rest) :
    Leveled nodes { w with queue := rest, sorted := w.sorted ++ [slot] } (depth nodes slot) := by
  have hascending := h.ascending
  have hle := h.le_waiting
  have hspan := h.waiting_le
  rw [hqueue] at hascending hle hspan
  rw [List.forall_mem_cons] at hle hspan
  rcases List.pairwise_append.1 hascending with ⟨-, hwaits, hacross⟩
  refine ⟨by simpa using hascending, ?_, ?_, ?_⟩
  · intro other hother
    rcases List.mem_append.1 hother with hsorted | hlast
    · exact (hacross other hsorted slot List.mem_cons_self).1
    · rw [List.mem_singleton.1 hlast]
  · intro other hother
    exact ((List.pairwise_cons.1 hwaits).1 other hother).1
  · intro other hother
    have hother := hspan.2 other hother
    omega

/-- Freeing a slot keeps the slots ascending in depth. -/
theorem Leveled.step {next : Worklist} (hinvariant : Invariant (resolved nodes) w [])
    (h : Leveled nodes w level) (hstep : w.step? (dependents nodes) = some next) :
    ∃ reached, Leveled nodes next reached := by
  unfold step? at hstep
  split at hstep
  · cases hstep
  · rename_i slot rest hqueue
    have hmem : slot ∈ w.sorted ++ w.queue := by simp [hqueue]
    have hlt : slot < nodes.length := by simpa using ((hinvariant.mem_iff slot).1 hmem).1
    rw [getD_dependents hlt] at hstep
    cases hstep
    refine ⟨depth nodes slot, (h.pop hqueue).foldl_release hcycle (hinvariant.pop hqueue) ?_⟩
    intro target htarget
    exact depth_lt_of_feeds hcycle (feeds_iff_mem_resolved.2 (mem_dependentsIn_iff.1 htarget))

/-- However many slots are freed, they ascend in depth. -/
theorem Leveled.run {fuel : Nat} (hinvariant : Invariant (resolved nodes) w [])
    (h : Leveled nodes w level) :
    ∃ reached, Leveled nodes (run (dependents nodes) fuel w) reached := by
  induction fuel generalizing w level with
  | zero => exact ⟨level, h⟩
  | succ fuel ih =>
      unfold Worklist.run
      cases hstep : w.step? (dependents nodes) with
      | none => exact ⟨level, h⟩
      | some next =>
          have hdependents : ∀ slot < (resolved nodes).length,
              (dependents nodes).getD slot [] = dependentsIn (resolved nodes) slot :=
            fun slot hslot => getD_dependents (by simpa using hslot)
          rcases h.step hcycle hinvariant hstep with ⟨reached, hnext⟩
          exact ih (hinvariant.step hdependents hstep).1 hnext

end Acyclic

end Worklist

/-! ## The order -/

namespace TopologicalOrder

open Wiring

variable {nodes : List Node}

/-- The order ascends in depth and lists the slots without inputs in their order. -/
theorem pairwise_precedes_sorted (hcycle : (ofNodes nodes).hasCycle = false) :
    (ofNodes nodes).sorted.Pairwise (Precedes nodes) := by
  rcases (Worklist.leveled_start hcycle).run hcycle
    (Worklist.invariant_start (resolved nodes)) with ⟨level, h⟩
  rw [sorted_ofNodes]
  exact (List.pairwise_append.1 h.ascending).1

end TopologicalOrder

end TriggerGraph
