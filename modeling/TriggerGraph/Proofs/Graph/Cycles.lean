import Mathlib.Data.Fintype.EquivFin
import Mathlib.Logic.Relation
import TriggerGraph.Graph.Feeding

/-!
# Cycles of the feeding relation

A slot lies on a cycle when a chain of feeding edges leads from it back to itself,
and behind one when such a slot reaches it.  The slots of a list are finitely many,
so a slot that is not behind a cycle is accessible: recursion over the slots that
feed it comes to an end.

Main results:

- Theorem `feeds_iff_mem_resolved`: the feeding relation reads off the resolved
  inputs.
- Theorem `acc_feeds_iff`: the accessible slots are those not behind a cycle.
- Theorem `wellFounded_feeds_iff`: recursion over feeding slots is possible exactly
  when no slot lies on a cycle.
-/

namespace TriggerGraph

namespace Wiring

open Relation

/-- A chain of feeding edges leads from the slot back to itself. -/
def OnCycle (nodes : List Node) (slot : Nat) : Prop :=
  TransGen (Feeds nodes) slot slot

/-- The slot lies on a cycle or is reachable from one. -/
def BehindCycle (nodes : List Node) (slot : Nat) : Prop :=
  ∃ origin, OnCycle nodes origin ∧ ReflTransGen (Feeds nodes) origin slot

/-! ## The feeding relation -/

variable {nodes : List Node}

theorem feeds_lt_left {a b : Nat} (h : Feeds nodes a b) : a < nodes.length := by
  rcases h with ⟨node, hnode, id, hid, hslot⟩
  exact slotOf?_lt hslot

theorem feeds_lt_right {a b : Nat} (h : Feeds nodes a b) : b < nodes.length := by
  rcases h with ⟨node, hnode, id, hid, hslot⟩
  exact (List.getElem?_eq_some_iff.1 hnode).1

/-- A slot on a cycle is a place of the list. -/
theorem OnCycle.lt {slot : Nat} (h : OnCycle nodes slot) : slot < nodes.length := by
  rcases TransGen.tail'_iff.1 h with ⟨last, hlast, hedge⟩
  exact feeds_lt_right hedge

@[simp] theorem length_resolved (nodes : List Node) :
    (resolved nodes).length = nodes.length := by
  simp [resolved]

/-- The feeding relation reads off the resolved inputs. -/
theorem feeds_iff_mem_resolved {a b : Nat} :
    Feeds nodes a b ↔ a ∈ (resolved nodes).getD b [] := by
  unfold Feeds resolved
  rw [List.getD_eq_getElem?_getD, List.getElem?_map]
  cases hnode : nodes[b]? with
  | none => simp
  | some node => simp [mem_inputSlots_iff]

/-! ## Accessible slots -/

/-- What leads to no cycle backwards is accessible, when only finitely many places
have a successor. -/
theorem acc_of_forall_not_cycle {r : Nat → Nat → Prop} {bound target : Nat}
    (hbound : ∀ a b, r a b → a < bound)
    (hcycle : ∀ origin, ReflTransGen r origin target → ¬ TransGen r origin origin) :
    Acc r target := by
  let Ancestor := {a : Fin bound // ReflTransGen r a.val target}
  let before : Ancestor → Ancestor → Prop := fun a b => TransGen r a.1.val b.1.val
  have hfinite : Finite Ancestor := Subtype.finite
  have htrans : IsTrans Ancestor before := ⟨fun _ _ _ hab hbc => TransGen.trans hab hbc⟩
  have hirrefl : Std.Irrefl before := ⟨fun a h => hcycle a.1.val a.2 h⟩
  have hwf : WellFounded before := Finite.wellFounded_of_trans_of_irrefl before
  have hancestor : ∀ a : Ancestor, Acc r a.1.val := by
    intro a
    induction a using hwf.induction with
    | h a ih =>
        constructor
        intro b hba
        exact ih ⟨⟨b, hbound b _ hba⟩, ReflTransGen.head hba a.2⟩ (TransGen.single hba)
  constructor
  intro a ha
  exact hancestor ⟨⟨a, hbound a _ ha⟩, ReflTransGen.single ha⟩

/-- Nothing on a cycle is accessible. -/
theorem not_acc_of_cycle {r : Nat → Nat → Prop} {origin : Nat}
    (h : TransGen r origin origin) : ¬ Acc r origin := by
  intro hacc
  have htrans : Acc (TransGen r) origin := hacc.transGen
  induction htrans with
  | intro origin _ ih => exact ih origin h h hacc

/-- The accessible slots are those not behind a cycle. -/
theorem acc_feeds_iff (slot : Nat) : Acc (Feeds nodes) slot ↔ ¬ BehindCycle nodes slot := by
  constructor
  · rintro hacc ⟨origin, hcycle, hreach⟩
    have horigin : Acc (Feeds nodes) origin := by
      induction hreach with
      | refl => exact hacc
      | tail _ hedge ih => exact ih (hacc.inv hedge)
    exact not_acc_of_cycle hcycle horigin
  · intro hbehind
    refine acc_of_forall_not_cycle (fun a b h => feeds_lt_left h) ?_
    intro origin hreach hcycle
    exact hbehind ⟨origin, hcycle, hreach⟩

/-- Recursion over feeding slots is possible exactly when no slot lies on a cycle. -/
theorem wellFounded_feeds_iff :
    WellFounded (Feeds nodes) ↔ ∀ slot, ¬ OnCycle nodes slot := by
  constructor
  · intro hwf slot hcycle
    exact not_acc_of_cycle hcycle (hwf.apply slot)
  · intro hcycle
    constructor
    intro slot
    rw [acc_feeds_iff]
    rintro ⟨origin, horigin, -⟩
    exact hcycle origin horigin

end Wiring

end TriggerGraph
