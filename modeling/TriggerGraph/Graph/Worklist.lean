/-!
# Freeing slots from a worklist

Slots are freed in the order of a queue.  Every slot counts the inputs that are
still pending; freeing a slot takes one off each slot it feeds, as often as it
feeds it, and a slot whose count reaches zero joins the queue.

Main results:

- Theorem `step?_eq_none_iff`: the worklist is done when its queue is empty.
- Theorem `length_release`: taking off an input keeps the number of counts.
-/

namespace TriggerGraph

/-- The state of freeing slots. -/
structure Worklist where
  /-- For every slot, how many inputs are still pending. -/
  pending : List Nat
  queue : List Nat
  /-- The freed slots in order. -/
  sorted : List Nat
deriving DecidableEq

namespace Worklist

/-- The pending inputs of a slot. -/
def pendingAt (w : Worklist) (slot : Nat) : Nat := w.pending.getD slot 0

/-- The worklist in which the slots without inputs wait, in their order. -/
def start (counts : List Nat) : Worklist :=
  ⟨counts, (List.range counts.length).filter fun slot => counts.getD slot 0 = 0, []⟩

/-- Takes one pending input off a slot; the last one lets it join the queue. -/
def release (w : Worklist) (slot : Nat) : Worklist :=
  let left := w.pendingAt slot - 1
  { w with
    pending := w.pending.set slot left
    queue := if left = 0 then w.queue ++ [slot] else w.queue }

/-- Frees the first slot of the queue. -/
def step? (dependents : List (List Nat)) (w : Worklist) : Option Worklist :=
  match w.queue with
  | [] => none
  | slot :: rest =>
    some ((dependents.getD slot []).foldl release
      { w with queue := rest, sorted := w.sorted ++ [slot] })

/-- Frees at most `fuel` slots. -/
def run (dependents : List (List Nat)) : Nat → Worklist → Worklist
  | 0, w => w
  | fuel + 1, w => match w.step? dependents with
    | none => w
    | some next => run dependents fuel next

/-- Frees what can be freed: no slot is freed twice, so as many steps as there are
slots suffice. -/
def drain (dependents : List (List Nat)) (counts : List Nat) : Worklist :=
  run dependents counts.length (start counts)

/-- The worklist is done when its queue is empty. -/
theorem step?_eq_none_iff (dependents : List (List Nat)) (w : Worklist) :
    w.step? dependents = none ↔ w.queue = [] := by
  unfold step?
  split <;> simp_all

@[simp] theorem sorted_release (w : Worklist) (slot : Nat) : (w.release slot).sorted = w.sorted :=
  rfl

/-- Taking off an input keeps the number of counts. -/
@[simp] theorem length_release (w : Worklist) (slot : Nat) :
    (w.release slot).pending.length = w.pending.length := by
  simp [release]

end Worklist

end TriggerGraph
