import TriggerGraph.Graph.Worklist
import TriggerGraph.Proofs.Graph.Cycles

/-!
# What the worklist frees

Freeing a slot takes one off each slot it feeds, one occurrence at a time.  The
invariant holds in the middle of that loop too: what a slot still counts are the
input occurrences whose slot is not freed yet, together with those of the slot being
freed that are still to be taken off.

Main results:

- Theorem `count_dependentsIn`: a slot is listed among the dependents of another as
  often as it lists it as an input.
- Theorem `Invariant.release`: taking off one occurrence keeps the invariant.
- Theorem `Invariant.step`: freeing a slot keeps the invariant.
- Theorems `invariant_drain` and `queue_drain`: draining ends in a state that keeps
  the invariant and in which nothing waits.
-/

namespace TriggerGraph

/-! ## Dependents with multiplicity -/

namespace Wiring

/-- A slot depends on another as often as it lists it. -/
theorem count_dependentsIn_from (inputs : List (List Nat)) (a b start : Nat) :
    ((inputs.zipIdx start).flatMap fun entry => List.replicate (entry.1.count a) entry.2).count b =
      if start ≤ b then (inputs.getD (b - start) []).count a else 0 := by
  induction inputs generalizing start with
  | nil => simp
  | cons head rest ih =>
      rw [List.zipIdx_cons, List.flatMap_cons, List.count_append, ih, List.count_replicate]
      by_cases hstart : start = b
      · subst hstart
        have hafter : ¬ start + 1 ≤ start := by omega
        simp [hafter]
      · by_cases hle : start ≤ b
        · have hle' : start + 1 ≤ b := by omega
          have hplace : b - start = (b - (start + 1)) + 1 := by omega
          simp [hstart, hle, hle', hplace]
        · have hle' : ¬ start + 1 ≤ b := by omega
          simp [hstart, hle, hle']

/-- A slot is listed among the dependents of another as often as it lists it as an
input. -/
theorem count_dependentsIn (inputs : List (List Nat)) (a b : Nat) :
    (dependentsIn inputs a).count b = (inputs.getD b []).count a := by
  simpa [dependentsIn] using count_dependentsIn_from inputs a b 0

/-- The dependents of a slot are those that list it. -/
theorem mem_dependentsIn_iff {inputs : List (List Nat)} {a b : Nat} :
    b ∈ dependentsIn inputs a ↔ a ∈ inputs.getD b [] := by
  rw [← List.count_pos_iff, count_dependentsIn, List.count_pos_iff]

/-- Dependents are places of the list. -/
theorem lt_of_mem_dependentsIn {inputs : List (List Nat)} {a b : Nat}
    (h : b ∈ dependentsIn inputs a) : b < inputs.length := by
  rw [mem_dependentsIn_iff] at h
  by_contra hlt
  have hnil : inputs.getD b [] = [] := by
    simp [List.getD_eq_getElem?_getD, List.getElem?_eq_none (Nat.le_of_not_lt hlt)]
  rw [hnil] at h
  simp at h

theorem getD_dependents {nodes : List Node} {slot : Nat} (h : slot < nodes.length) :
    (dependents nodes).getD slot [] = dependentsIn (resolved nodes) slot := by
  simp [dependents, List.getD_eq_getElem?_getD, h]

end Wiring

namespace Worklist

/-! ## The invariant -/

/-- How many input occurrences of a slot are of slots not freed yet. -/
def waiting (inputs : List (List Nat)) (w : Worklist) (slot : Nat) : Nat :=
  (inputs.getD slot []).countP fun input => input ∉ w.sorted

/-- Each slot of an order comes after its inputs. -/
def Ordered (inputs : List (List Nat)) (order : List Nat) : Prop :=
  ∀ front slot back, order = front ++ slot :: back →
    ∀ input ∈ inputs.getD slot [], input ∈ front

/-- What holds while a slot is being freed and `todo` are the slots it feeds that one
has still to be taken off. -/
structure Invariant (inputs : List (List Nat)) (w : Worklist) (todo : List Nat) : Prop where
  length_eq : w.pending.length = inputs.length
  todo_lt : ∀ slot ∈ todo, slot < inputs.length
  pending_eq : ∀ slot < inputs.length, w.pendingAt slot = waiting inputs w slot + todo.count slot
  nodup : (w.sorted ++ w.queue).Nodup
  mem_iff : ∀ slot, slot ∈ w.sorted ++ w.queue ↔ slot < inputs.length ∧ w.pendingAt slot = 0
  ordered : Ordered inputs w.sorted

variable {inputs : List (List Nat)} {w : Worklist}

/-- An order stays one when a slot joins whose inputs all come before. -/
theorem Ordered.concat {order : List Nat} {slot : Nat} (h : Ordered inputs order)
    (hslot : ∀ input ∈ inputs.getD slot [], input ∈ order) :
    Ordered inputs (order ++ [slot]) := by
  intro front other back hsplit input hinput
  rcases List.eq_nil_or_concat back with rfl | ⟨back, last, rfl⟩
  · have hends : order = front ∧ slot = other := by simpa using hsplit
    rcases hends with ⟨rfl, rfl⟩
    exact hslot input hinput
  · have hends : order ++ [slot] = (front ++ other :: back) ++ [last] := by simpa using hsplit
    rcases List.append_inj' hends rfl with ⟨horder, -⟩
    exact h front other back horder input hinput

/-! ## Taking off one occurrence -/

/-- A release takes one from the count of one slot. -/
theorem pendingAt_release {slot : Nat} (h : slot < w.pending.length) (other : Nat) :
    (w.release slot).pendingAt other =
      if other = slot then w.pendingAt slot - 1 else w.pendingAt other := by
  unfold pendingAt release
  rw [List.getD_eq_getElem?_getD, List.getElem?_set]
  by_cases hother : other = slot
  · subst hother
    simp [h, pendingAt]
  · have hne : ¬ slot = other := fun heq => hother heq.symm
    simp [hother, hne, List.getD_eq_getElem?_getD]

@[simp] theorem waiting_release (slot other : Nat) :
    waiting inputs (w.release slot) other = waiting inputs w other :=
  rfl

/-- What is taken off was there, so the count never falls below zero. -/
theorem Invariant.pendingAt_pos {slot : Nat} {todo : List Nat}
    (h : Invariant inputs w (slot :: todo)) : 0 < w.pendingAt slot := by
  have hlt : slot < inputs.length := h.todo_lt slot List.mem_cons_self
  have hcount : 0 < (slot :: todo).count slot := List.count_pos_iff.2 List.mem_cons_self
  rw [h.pending_eq slot hlt]
  omega

/-- Besides the slots that were freed or waited, only the slot itself may now wait. -/
theorem mem_release_iff (slot other : Nat) :
    other ∈ (w.release slot).sorted ++ (w.release slot).queue ↔
      other ∈ w.sorted ++ w.queue ∨ other = slot ∧ w.pendingAt slot - 1 = 0 := by
  by_cases hleft : w.pendingAt slot - 1 = 0
  · simp [release, hleft, or_assoc]
  · simp [release, hleft]

/-- Taking off one occurrence keeps the invariant. -/
theorem Invariant.release {slot : Nat} {todo : List Nat}
    (h : Invariant inputs w (slot :: todo)) : Invariant inputs (w.release slot) todo := by
  have hlt : slot < inputs.length := h.todo_lt slot List.mem_cons_self
  have hbound : slot < w.pending.length := by rw [h.length_eq]; exact hlt
  have hpos : 0 < w.pendingAt slot := h.pendingAt_pos
  have hfresh : slot ∉ w.sorted ++ w.queue := by
    intro hmem
    have hzero : w.pendingAt slot = 0 := ((h.mem_iff slot).1 hmem).2
    omega
  refine ⟨?_, ?_, ?_, ?_, ?_, h.ordered⟩
  · rw [length_release]
    exact h.length_eq
  · intro other hother
    exact h.todo_lt other (List.mem_cons_of_mem slot hother)
  · intro other hother
    have hpending := h.pending_eq other hother
    rw [pendingAt_release hbound, waiting_release]
    by_cases heq : other = slot
    · subst heq
      simp only [List.count_cons_self] at hpending
      simp only [↓reduceIte]
      omega
    · have hne : ¬ slot = other := fun hcontra => heq hcontra.symm
      simpa [heq, hne] using hpending
  · by_cases hleft : w.pendingAt slot - 1 = 0
    · have hnodup : ((w.sorted ++ w.queue) ++ [slot]).Nodup := by
        rw [List.nodup_append]
        refine ⟨h.nodup, by simp, ?_⟩
        intro other hother last hlast heq
        rw [List.mem_singleton] at hlast
        exact hfresh (hlast ▸ heq ▸ hother)
      simpa [Worklist.release, hleft] using hnodup
    · simpa [Worklist.release, hleft] using h.nodup
  · intro other
    rw [mem_release_iff, h.mem_iff other, pendingAt_release hbound]
    by_cases heq : other = slot
    · subst heq
      have hne : ¬ w.pendingAt other = 0 := by omega
      simp [hlt, hne]
    · simp [heq]

/-- Once all releases are made, the counts are exact. -/
theorem Invariant.foldl_release {todo : List Nat} (h : Invariant inputs w todo) :
    Invariant inputs (todo.foldl Worklist.release w) [] := by
  induction todo generalizing w with
  | nil => exact h
  | cons slot todo ih => exact ih h.release

/-! ## Freeing a slot -/

/-- A slot that comes out is waited for no more, as often as it is listed. -/
theorem countP_notMem_concat {order : List Nat} {slot : Nat} (h : slot ∉ order)
    (slots : List Nat) :
    (slots.countP fun input => input ∉ order) =
      (slots.countP fun input => input ∉ order ++ [slot]) + slots.count slot := by
  induction slots with
  | nil => simp
  | cons head rest ih =>
      simp only [List.countP_cons, List.count_cons, ih]
      by_cases heq : head = slot
      · subst heq
        simp [h]
        omega
      · simp [heq]
        omega

/-- Once it is freed, a slot's own occurrences are what is still to be taken off. -/
theorem Invariant.pop {slot : Nat} {rest : List Nat} (h : Invariant inputs w [])
    (hqueue : w.queue = slot :: rest) :
    Invariant inputs { w with queue := rest, sorted := w.sorted ++ [slot] }
      (Wiring.dependentsIn inputs slot) := by
  have hslot : slot ∈ w.sorted ++ w.queue := by simp [hqueue]
  have hfresh : slot ∉ w.sorted := by
    intro hmem
    have hdisjoint := (List.nodup_append.1 h.nodup).2.2
    exact hdisjoint slot hmem slot (by simp [hqueue]) rfl
  have hzero : waiting inputs w slot = 0 := by
    rcases (h.mem_iff slot).1 hslot with ⟨hlt, hpending⟩
    have heq := h.pending_eq slot hlt
    simp only [List.count_nil] at heq
    omega
  have hready : ∀ input ∈ inputs.getD slot [], input ∈ w.sorted := by
    intro input hinput
    by_contra hmissing
    have hnone := List.countP_eq_zero.1 hzero input hinput
    simp [hmissing] at hnone
  refine ⟨h.length_eq, fun _ => Wiring.lt_of_mem_dependentsIn, ?_, ?_, ?_,
    h.ordered.concat hready⟩
  · intro other hother
    have hpending := h.pending_eq other hother
    simp only [waiting, List.count_nil, Nat.add_zero] at hpending
    rw [countP_notMem_concat hfresh] at hpending
    rw [Wiring.count_dependentsIn]
    exact hpending
  · simpa [hqueue] using h.nodup
  · intro other
    have hmem := h.mem_iff other
    simp only [hqueue] at hmem
    simpa [pendingAt] using hmem

/-- Freeing a slot keeps the invariant. -/
theorem Invariant.step {dependents : List (List Nat)} {next : Worklist}
    (hdependents : ∀ slot < inputs.length,
      dependents.getD slot [] = Wiring.dependentsIn inputs slot)
    (h : Invariant inputs w []) (hstep : w.step? dependents = some next) :
    Invariant inputs next [] ∧ next.sorted.length = w.sorted.length + 1 := by
  unfold step? at hstep
  split at hstep
  · cases hstep
  · rename_i slot rest hqueue
    have hslot : slot ∈ w.sorted ++ w.queue := by simp [hqueue]
    rw [hdependents slot ((h.mem_iff slot).1 hslot).1] at hstep
    cases hstep
    refine ⟨(h.pop hqueue).foldl_release, ?_⟩
    have hsorted : ∀ (todo : List Nat) (v : Worklist),
        (todo.foldl Worklist.release v).sorted = v.sorted := by
      intro todo
      induction todo with
      | nil => intro v; rfl
      | cons head todo ih => intro v; rw [List.foldl_cons, ih, sorted_release]
    simp [hsorted]

/-! ## Draining -/

/-- No more slots are freed or wait than there are. -/
theorem Invariant.length_le {todo : List Nat} (h : Invariant inputs w todo) :
    w.sorted.length + w.queue.length ≤ inputs.length := by
  have hsubset : w.sorted ++ w.queue ⊆ List.range inputs.length := by
    intro slot hslot
    exact List.mem_range.2 ((h.mem_iff slot).1 hslot).1
  have hle := List.Nodup.length_le_of_subset h.nodup hsubset
  simpa using hle

/-- In the beginning the counts are those of the inputs. -/
theorem invariant_start (inputs : List (List Nat)) :
    Invariant inputs (start (inputs.map List.length)) [] := by
  refine ⟨by simp [start], by simp, ?_, ?_, ?_, ?_⟩
  · intro slot hslot
    simp [start, pendingAt, waiting, List.getD_eq_getElem?_getD, hslot]
  · simpa [start] using List.nodup_range.filter _
  · intro slot
    simp [start, pendingAt]
  · intro front slot back hsplit
    simp [start] at hsplit

/-- Enough steps leave nothing waiting: each frees a slot, and none is freed twice. -/
theorem Invariant.run {dependents : List (List Nat)} {fuel : Nat}
    (hdependents : ∀ slot < inputs.length,
      dependents.getD slot [] = Wiring.dependentsIn inputs slot)
    (h : Invariant inputs w []) (hfuel : inputs.length ≤ w.sorted.length + fuel) :
    Invariant inputs (run dependents fuel w) [] ∧ (run dependents fuel w).queue = [] := by
  induction fuel generalizing w with
  | zero =>
      have hle := h.length_le
      have hnil : w.queue = [] := List.length_eq_zero_iff.1 (by omega)
      exact ⟨h, hnil⟩
  | succ fuel ih =>
      cases hstep : w.step? dependents with
      | none =>
          have hnil : w.queue = [] := (step?_eq_none_iff dependents w).1 hstep
          simpa [Worklist.run, hstep] using ⟨h, hnil⟩
      | some next =>
          rcases h.step hdependents hstep with ⟨hnext, hlength⟩
          have hrest := ih hnext (by omega)
          simpa [Worklist.run, hstep] using hrest

variable (nodes : List Node)

/-- The worklist of a node list ends empty, with exact counts. -/
theorem run_dependents :
    Invariant (Wiring.resolved nodes)
        (drain (Wiring.dependents nodes) (Wiring.inputCounts nodes)) [] ∧
      (drain (Wiring.dependents nodes) (Wiring.inputCounts nodes)).queue = [] := by
  have hdependents : ∀ slot < (Wiring.resolved nodes).length,
      (Wiring.dependents nodes).getD slot [] =
        Wiring.dependentsIn (Wiring.resolved nodes) slot := by
    intro slot hslot
    exact Wiring.getD_dependents (by simpa using hslot)
  refine (invariant_start (Wiring.resolved nodes)).run hdependents ?_
  simp [Wiring.inputCounts]

/-- Draining keeps the invariant. -/
theorem invariant_drain :
    Invariant (Wiring.resolved nodes)
      (drain (Wiring.dependents nodes) (Wiring.inputCounts nodes)) [] :=
  (run_dependents nodes).1

/-- After draining nothing waits. -/
theorem queue_drain :
    (drain (Wiring.dependents nodes) (Wiring.inputCounts nodes)).queue = [] :=
  (run_dependents nodes).2

end Worklist

end TriggerGraph
