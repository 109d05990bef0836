import Mathlib.Data.List.Forall2
import TriggerGraph.Proofs.Number.Order
import TriggerGraph.Proofs.Value.Equality

/-!
# Loose equality

Loose equality compares values after normalizing both.  Strict equality is sameness up to
the signs of zeros, so loose equality is sameness of normal forms up to those signs, and
thus an equivalence.  What it takes for equal is told by the kinds of the two values:
numbers are equal by their exact values, lists item by item, and everything else, objects
included, as it is strictly.

Main results:

- Theorem `looselyEqual_iff`: loose equality is sameness of normal forms.
- Theorem `looselyEqual_number_iff`: numbers are loosely equal when their exact values are.
- Theorem `looselyEqual_list_iff`: lists are loosely equal item by item.
- Theorem `looselyEqual_is_exact`: all of it, for all values.
-/

namespace TriggerGraph

namespace Value

variable {u v w : Value}

/-! ## An equivalence -/

/-- Loosely equal values have one normal form, up to the signs of zeros. -/
theorem looselyEqual_iff : v.looselyEqual w = true ↔ v.normalized.plain = w.normalized.plain :=
  equal_iff v.normalized w.normalized

/-- Loose equality is reflexive. -/
@[simp] theorem looselyEqual_self (v : Value) : v.looselyEqual v = true :=
  looselyEqual_iff.2 rfl

/-- Loose equality is symmetric. -/
theorem looselyEqual_comm (v w : Value) : v.looselyEqual w = w.looselyEqual v := by
  rw [Bool.eq_iff_iff, looselyEqual_iff, looselyEqual_iff]
  exact eq_comm

/-- Loose equality is transitive. -/
theorem looselyEqual_trans (huv : u.looselyEqual v = true) (hvw : v.looselyEqual w = true) :
    u.looselyEqual w = true :=
  looselyEqual_iff.2 ((looselyEqual_iff.1 huv).trans (looselyEqual_iff.1 hvw))

/-! ## By kinds -/

/-- Numbers are loosely equal when their exact values are. -/
theorem looselyEqual_number_iff {m n : MachineNumber} :
    looselyEqual (.number m) (.number n) = true ↔ m.units = n.units :=
  MachineNumber.equal_normalized_iff

/-- Normalized lists are equal if the lists are loosely equal item by item. -/
theorem equalItems_normalizedItems_iff {xs ys : List Value} :
    equalItems (normalizedItems xs) (normalizedItems ys) = true ↔
      List.Forall₂ (fun x y => looselyEqual x y = true) xs ys := by
  induction xs generalizing ys with
  | nil => cases ys <;> simp [normalizedItems, equalItems]
  | cons x xs ih =>
      cases ys with
      | nil => simp [normalizedItems, equalItems]
      | cons y ys =>
          rw [normalizedItems, normalizedItems, equalItems, Bool.and_eq_true, ih,
            List.forall₂_cons, looselyEqual]

/-- Lists are loosely equal when they are as long and their items are, one by one. -/
theorem looselyEqual_list_iff {xs ys : List Value} :
    looselyEqual (.list xs) (.list ys) = true ↔
      List.Forall₂ (fun x y => looselyEqual x y = true) xs ys :=
  equalItems_normalizedItems_iff

/-- What is neither two numbers nor two lists is loosely equal when it is strictly. -/
theorem looselyEqual_eq_equal (hnumber : ¬ (v.type = .number ∧ w.type = .number))
    (hlist : ¬ (v.type = .array ∧ w.type = .array)) : v.looselyEqual w = v.equal w := by
  cases v with
  | number m =>
      cases w with
      | number n => exact absurd ⟨rfl, rfl⟩ hnumber
      | _ => rfl
  | list xs =>
      cases w with
      | list ys => exact absurd ⟨rfl, rfl⟩ hlist
      | _ => rfl
  | _ => cases w <;> rfl

/-- A value that is loosely equal to a number is a number of the same exact value. -/
theorem exists_number_of_looselyEqual {n : MachineNumber}
    (h : v.looselyEqual (.number n) = true) : ∃ m, v = .number m ∧ m.units = n.units := by
  cases v with
  | number m => exact ⟨m, rfl, looselyEqual_number_iff.1 h⟩
  | _ => cases h

/-! ## All of it -/

/-- Loose equality is an equivalence of values.  Numbers of either kind are loosely equal
exactly when their exact values are, at every magnitude; lists exactly when they are equally
long and their items are loosely equal, one by one; and other pairs exactly when they are
strictly equal.  Normalizing twice changes nothing more. -/
theorem looselyEqual_is_exact :
    (∀ v : Value, v.looselyEqual v = true) ∧
      (∀ v w : Value, v.looselyEqual w = w.looselyEqual v) ∧
      (∀ u v w : Value, u.looselyEqual v = true → v.looselyEqual w = true →
        u.looselyEqual w = true) ∧
      (∀ m n : MachineNumber, looselyEqual (.number m) (.number n) = true ↔ m.units = n.units) ∧
      (∀ xs ys : List Value, looselyEqual (.list xs) (.list ys) = true ↔
        List.Forall₂ (fun x y => looselyEqual x y = true) xs ys) ∧
      (∀ v w : Value, ¬ (v.type = .number ∧ w.type = .number) →
        ¬ (v.type = .array ∧ w.type = .array) → v.looselyEqual w = v.equal w) ∧
      ∀ v : Value, v.normalized.normalized = v.normalized := by
  refine ⟨looselyEqual_self, looselyEqual_comm, ?_, ?_, ?_, ?_, normalized_normalized⟩
  · intro u v w huv hvw
    exact looselyEqual_trans huv hvw
  · intro m n
    exact looselyEqual_number_iff
  · intro xs ys
    exact looselyEqual_list_iff
  · intro v w hnumber hlist
    exact looselyEqual_eq_equal hnumber hlist

/-- Past the greatest signed word, 2^63 is one number in both kinds, and the floating-point
number 2^64 is not the greatest word, which binary64 rounds to it. -/
example :
    looselyEqual (.number (.word (.unsigned 0x8000000000000000 (by decide))))
        (.number (.float (Binary64.ofInt 0x8000000000000000))) = true ∧
      looselyEqual (.number (.word (.unsigned 0xFFFFFFFFFFFFFFFF (by decide))))
        (.number (.float (Binary64.ofInt 0x10000000000000000))) = false := by
  decide +kernel

end Value

end TriggerGraph
