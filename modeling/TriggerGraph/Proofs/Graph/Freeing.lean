import TriggerGraph.Proofs.Graph.Order

/-!
# Every moment of freeing slots

A run of the worklist passes through moments: those between two slots, and those in which
some of the inputs that the slot freed last gives to others are still to be taken off.  At
each of them the invariant holds, so the counts tell how many inputs are left, and a slot
enters the queue once, when its count comes down to zero.

Main results:

- Theorem `Moment.invariant`: the invariant holds at every moment.
- Theorem `moment_run`: however many slots are freed, the run is at a moment.
- Theorem `counts_never_underflow`: the counts are exact at every moment, what is taken
  off was there, each slot enters the queue at most once and exactly when its count is
  zero, and what still counts in the end are the slots that were not freed.
-/

namespace TriggerGraph

namespace Worklist

open Wiring

/-- The slots that have entered the queue, in the order in which they did: those freed
and those that still wait. -/
def entered (w : Worklist) : List Nat := w.sorted ++ w.queue

/-- The moments of a run, with the slots that one input has still to be taken off because
of the slot freed last. -/
inductive Moment (nodes : List Node) : Worklist → List Nat → Prop
  | start : Moment nodes (start (inputCounts nodes)) []
  | pop {w : Worklist} {slot : Nat} {rest : List Nat} (h : Moment nodes w [])
      (hqueue : w.queue = slot :: rest) :
      Moment nodes { w with queue := rest, sorted := w.sorted ++ [slot] }
        ((dependents nodes).getD slot [])
  | release {w : Worklist} {slot : Nat} {todo : List Nat} (h : Moment nodes w (slot :: todo)) :
      Moment nodes (w.release slot) todo

variable {nodes : List Node} {w : Worklist} {slot : Nat} {todo : List Nat}

/-- The invariant holds at every moment. -/
theorem Moment.invariant (h : Moment nodes w todo) : Invariant (resolved nodes) w todo := by
  induction h with
  | start => exact invariant_start (resolved nodes)
  | @pop w slot rest _ hqueue ih =>
      have hmem : slot ∈ w.sorted ++ w.queue := by simp [hqueue]
      have hlt : slot < nodes.length := by simpa using ((ih.mem_iff slot).1 hmem).1
      rw [getD_dependents hlt]
      exact ih.pop hqueue
  | release _ ih => exact ih.release

theorem Moment.foldl_release (h : Moment nodes w todo) :
    Moment nodes (todo.foldl Worklist.release w) [] := by
  induction todo generalizing w with
  | nil => exact h
  | cons slot todo ih => exact ih h.release

/-- Freeing a slot leads from one moment between two slots to the next. -/
theorem Moment.step {next : Worklist} (h : Moment nodes w [])
    (hstep : w.step? (dependents nodes) = some next) : Moment nodes next [] := by
  unfold step? at hstep
  split at hstep
  · cases hstep
  · rename_i slot rest hqueue
    cases hstep
    exact (h.pop hqueue).foldl_release

theorem Moment.run (h : Moment nodes w []) (fuel : Nat) :
    Moment nodes (run (dependents nodes) fuel w) [] := by
  induction fuel generalizing w with
  | zero => exact h
  | succ fuel ih =>
      unfold Worklist.run
      cases hstep : w.step? (dependents nodes) with
      | none => exact h
      | some next => exact ih (h.step hstep)

/-- However many slots are freed, the run is at a moment. -/
theorem moment_run (nodes : List Node) (fuel : Nat) :
    Moment nodes (run (dependents nodes) fuel (start (inputCounts nodes))) [] :=
  Moment.start.run fuel

/-- What is taken off was there. -/
theorem Moment.pendingAt_release_succ (h : Moment nodes w (slot :: todo)) :
    (w.release slot).pendingAt slot + 1 = w.pendingAt slot := by
  have hpos := h.invariant.pendingAt_pos
  have hbound : slot < w.pending.length := by
    rw [h.invariant.length_eq]
    exact h.invariant.todo_lt slot List.mem_cons_self
  rw [pendingAt_release hbound, if_pos rfl]
  omega

/-- A slot enters the queue when the last of its inputs is taken off, and was not in it
before. -/
theorem Moment.entered_release (h : Moment nodes w (slot :: todo)) :
    slot ∉ w.entered ∧
      (w.release slot).entered =
        if (w.release slot).pendingAt slot = 0 then w.entered ++ [slot] else w.entered := by
  have hsucc := h.pendingAt_release_succ
  constructor
  · intro hmem
    have hzero := ((h.invariant.mem_iff slot).1 hmem).2
    omega
  · have hleft : (w.release slot).pendingAt slot = w.pendingAt slot - 1 := by omega
    rw [hleft]
    by_cases hlast : w.pendingAt slot - 1 = 0
    · simp [entered, Worklist.release, hlast]
    · simp [entered, Worklist.release, hlast]

end Worklist

namespace TopologicalOrder

open Wiring Worklist

/-- At every moment of the run the count of a slot is the number of its known inputs that
are not freed yet, together with those of the slot freed last that are still to be taken
off.  So what is taken off was there; a slot enters the queue at most once, and exactly when
its count is zero, be it from the start or when the last input is taken off.  After as many
slots as there are nodes nothing waits any more, and those that still count are the slots
that the order leaves out. -/
theorem counts_never_underflow (nodes : List Node) :
    (∀ pops, Moment nodes (run (dependents nodes) pops (start (inputCounts nodes))) []) ∧
      (∀ w todo, Moment nodes w todo →
        (∀ slot < nodes.length,
          w.pendingAt slot = waiting (resolved nodes) w slot + todo.count slot) ∧
        w.entered.Nodup ∧
        (∀ slot, slot ∈ w.entered ↔ slot < nodes.length ∧ w.pendingAt slot = 0) ∧
        w.sorted.length ≤ nodes.length) ∧
      (∀ w slot todo, Moment nodes w (slot :: todo) →
        (w.release slot).pendingAt slot + 1 = w.pendingAt slot ∧ slot ∉ w.entered ∧
        (w.release slot).entered =
          if (w.release slot).pendingAt slot = 0 then w.entered ++ [slot] else w.entered) ∧
      drained nodes = run (dependents nodes) nodes.length (start (inputCounts nodes)) ∧
      (drained nodes).step? (dependents nodes) = none ∧
      ∀ slot < nodes.length,
        0 < (drained nodes).pendingAt slot ↔ slot ∉ (ofNodes nodes).sorted := by
  refine ⟨moment_run nodes, ?_, ?_, ?_, ?_, ?_⟩
  · intro w todo hmoment
    have h := hmoment.invariant
    have hlength : (resolved nodes).length = nodes.length := length_resolved nodes
    refine ⟨?_, h.nodup, ?_, ?_⟩
    · rw [← hlength]
      exact h.pending_eq
    · rw [← hlength]
      exact h.mem_iff
    · have hle := h.length_le
      omega
  · intro w slot todo hmoment
    exact ⟨hmoment.pendingAt_release_succ, hmoment.entered_release⟩
  · rw [drained, drain, inputCounts, List.length_map, length_resolved]
  · exact (step?_eq_none_iff _ _).2 (queue_drain nodes)
  · intro slot hlt
    rw [sorted_ofNodes, mem_drained_iff, Nat.pos_iff_ne_zero]
    simp [hlt]

end TopologicalOrder

end TriggerGraph
