import Mathlib.Logic.ExistsUnique
import TriggerGraph.Proofs.Number.Order
import TriggerGraph.Proofs.Operator.Operands

/-!
# Comparing numbers

Equality of numbers is decided on their exact values, order on what they become in
binary64.  So the order never contradicts the exact one, and it is strict on numbers that
binary64 keeps apart; where binary64 gives two different whole numbers one place, none of
the three comparisons holds.

Main results:

- Theorems `on_equals`, `on_lessThan`, `on_greaterThan` and `on_between`: what each
  comparison decides.
- Theorem `comparisons_of_numbers`: how the comparisons of two numbers fit together, and
  that exactly one of three holds just when binary64 keeps the numbers apart.
- Theorem `comparisons_fail_above_2_53`: two whole numbers on which none of the three holds.
-/

namespace TriggerGraph

/-- Numbers as the results of operands. -/
def MachineNumber.results (ns : List MachineNumber) : List (Option Value) :=
  ns.map fun n => some (.number n)

namespace Operator

open MachineNumber (results)

variable {a b : MachineNumber}

/-! ## What each comparison decides -/

section AnyEngine

variable [SchemaEngine]

/-- Numbers are equal if their exact values are. -/
theorem on_equals (a b : MachineNumber) :
    on .equals (results [a, b]) = .ok (.bool (decide (a.units = b.units))) := by
  have hequal : a.normalized.equal b.normalized = decide (a.units = b.units) := by
    rw [Bool.eq_iff_iff, MachineNumber.equal_normalized_iff, decide_eq_true_eq]
  show Except.ok (Value.bool (a.normalized.equal b.normalized)) = _
  rw [hequal]

/-- A number is less if its place in binary64 is lower. -/
theorem on_lessThan (a b : MachineNumber) : on .lessThan (results [a, b]) =
    .ok (.bool (decide (a.toBinary64.rank < b.toBinary64.rank))) := by
  have hless : (some (compare a.toBinary64.rank b.toBinary64.rank) == some .lt) =
      decide (a.toBinary64.rank < b.toBinary64.rank) := by
    rw [Bool.eq_iff_iff]
    simp [Std.compare_eq_lt]
  show Except.ok (Value.bool (some (compare a.toBinary64.rank b.toBinary64.rank) == some .lt)) = _
  rw [hless]

/-- A number is greater if its place in binary64 is higher. -/
theorem on_greaterThan (a b : MachineNumber) : on .greaterThan (results [a, b]) =
    .ok (.bool (decide (b.toBinary64.rank < a.toBinary64.rank))) := by
  have hgreater : (some (compare a.toBinary64.rank b.toBinary64.rank) == some .gt) =
      decide (b.toBinary64.rank < a.toBinary64.rank) := by
    rw [Bool.eq_iff_iff]
    simp [Std.compare_eq_gt]
  show Except.ok (Value.bool (some (compare a.toBinary64.rank b.toBinary64.rank) == some .gt)) = _
  rw [hgreater]

/-- A number lies between two others if its place is neither below the one nor above the other. -/
theorem on_between (v low high : MachineNumber) : on .between (results [v, low, high]) =
    .ok (.bool (decide (¬ v.toBinary64.rank < low.toBinary64.rank) &&
      decide (¬ high.toBinary64.rank < v.toBinary64.rank))) := by
  have hlow : (compare v.toBinary64.rank low.toBinary64.rank != .lt) =
      decide (¬ v.toBinary64.rank < low.toBinary64.rank) := by
    rw [Bool.eq_iff_iff]
    simp [Std.compare_eq_lt]
  have hhigh : (compare v.toBinary64.rank high.toBinary64.rank != .gt) =
      decide (¬ high.toBinary64.rank < v.toBinary64.rank) := by
    rw [Bool.eq_iff_iff]
    simp [Std.compare_eq_gt]
  show Except.ok (Value.bool ((compare v.toBinary64.rank low.toBinary64.rank != .lt) &&
    (compare v.toBinary64.rank high.toBinary64.rank != .gt))) = _
  rw [hlow, hhigh]

/-! ## How the comparisons fit together -/

/-- Lying between two numbers is being neither less than the one nor greater than the other. -/
theorem on_between_iff (v low high : MachineNumber) :
    on .between (results [v, low, high]) = .ok (.bool true) ↔
      on .lessThan (results [v, low]) = .ok (.bool false) ∧
        on .greaterThan (results [v, high]) = .ok (.bool false) := by
  rw [on_between, on_lessThan, on_greaterThan]
  simp

/-- On separated numbers lying between a number and itself is being equal to it. -/
theorem on_between_self (h : a.Separated b) :
    on .between (results [a, b, b]) = on .equals (results [a, b]) := by
  have hsame : (decide (¬ a.toBinary64.rank < b.toBinary64.rank) &&
      decide (¬ b.toBinary64.rank < a.toBinary64.rank)) = decide (a.units = b.units) := by
    rw [Bool.eq_iff_iff, Bool.and_eq_true, decide_eq_true_eq, decide_eq_true_eq,
      decide_eq_true_eq, ← h.rank_eq_iff]
    omega
  rw [on_between, on_equals, hsame]

/-- Equality holds of equal exact values. -/
theorem on_equals_eq_true_iff :
    on .equals (results [a, b]) = .ok (.bool true) ↔ a.units = b.units := by
  rw [on_equals]
  simp

/-- Less holds of a lower place. -/
theorem on_lessThan_eq_true_iff : on .lessThan (results [a, b]) = .ok (.bool true) ↔
    a.toBinary64.rank < b.toBinary64.rank := by
  rw [on_lessThan]
  simp

/-- Greater holds of a higher place. -/
theorem on_greaterThan_eq_true_iff : on .greaterThan (results [a, b]) = .ok (.bool true) ↔
    b.toBinary64.rank < a.toBinary64.rank := by
  rw [on_greaterThan]
  simp

/-- The three comparisons of which one is to hold. -/
def comparisons : List Operator := [.lessThan, .equals, .greaterThan]

/-- Which comparison of separated numbers holds, it holds because of their places. -/
theorem rank_of_comparison (h : a.Separated b) {operator : Operator}
    (hmem : operator ∈ comparisons)
    (hholds : on operator (results [a, b]) = .ok (.bool true)) :
    operator = .lessThan ∧ a.toBinary64.rank < b.toBinary64.rank ∨
      operator = .equals ∧ a.toBinary64.rank = b.toBinary64.rank ∨
      operator = .greaterThan ∧ b.toBinary64.rank < a.toBinary64.rank := by
  simp only [comparisons, List.mem_cons, List.not_mem_nil, or_false] at hmem
  rcases hmem with rfl | rfl | rfl
  · exact .inl ⟨rfl, on_lessThan_eq_true_iff.1 hholds⟩
  · exact .inr (.inl ⟨rfl, h.rank_eq_iff.2 (on_equals_eq_true_iff.1 hholds)⟩)
  · exact .inr (.inr ⟨rfl, on_greaterThan_eq_true_iff.1 hholds⟩)

/-- Exactly one of the three comparisons holds just when binary64 keeps the numbers apart. -/
theorem existsUnique_comparison_iff :
    (∃! operator, operator ∈ comparisons ∧
      on operator (results [a, b]) = .ok (.bool true)) ↔ a.Separated b := by
  constructor
  · rintro ⟨operator, ⟨hmem, hholds⟩, -⟩ hrank
    simp only [comparisons, List.mem_cons, List.not_mem_nil, or_false] at hmem
    rcases hmem with rfl | rfl | rfl
    · rw [on_lessThan_eq_true_iff, hrank] at hholds
      exact absurd hholds (Int.lt_irrefl _)
    · exact on_equals_eq_true_iff.1 hholds
    · rw [on_greaterThan_eq_true_iff, hrank] at hholds
      exact absurd hholds (Int.lt_irrefl _)
  · intro h
    -- The order of the places excludes two of the three, whichever it is.
    rcases Int.lt_trichotomy a.toBinary64.rank b.toBinary64.rank with hrank | hrank | hrank
    · refine ⟨.lessThan, ⟨by decide, on_lessThan_eq_true_iff.2 hrank⟩, ?_⟩
      rintro operator ⟨hmem, hholds⟩
      rcases rank_of_comparison h hmem hholds with ⟨rfl, -⟩ | ⟨-, hother⟩ | ⟨-, hother⟩
      · rfl
      · omega
      · omega
    · refine ⟨.equals, ⟨by decide, on_equals_eq_true_iff.2 (h hrank)⟩, ?_⟩
      rintro operator ⟨hmem, hholds⟩
      rcases rank_of_comparison h hmem hholds with ⟨-, hother⟩ | ⟨rfl, -⟩ | ⟨-, hother⟩
      · omega
      · rfl
      · omega
    · refine ⟨.greaterThan, ⟨by decide, on_greaterThan_eq_true_iff.2 hrank⟩, ?_⟩
      rintro operator ⟨hmem, hholds⟩
      rcases rank_of_comparison h hmem hholds with ⟨-, hother⟩ | ⟨-, hother⟩ | ⟨rfl, -⟩
      · omega
      · omega
      · rfl

/-- How the comparisons of numbers fit together, whatever operands produced the numbers.
Equality is equality of exact values, less and greater are each other's converse and never
contradict the exact order, and lying between two numbers is being neither less than the one
nor greater than the other.  Exactly one of less, equal and greater holds just when binary64
keeps the two numbers apart, and then less is the exact order. -/
theorem comparisons_of_numbers (a b : MachineNumber) :
    (∀ operator ∈ .between :: comparisons, ∀ operands : Operands,
      operator.apply operands = on operator operands.values) ∧
      (on .equals (results [a, b]) = .ok (.bool true) ↔ a.units = b.units) ∧
      on .lessThan (results [a, b]) = on .greaterThan (results [b, a]) ∧
      (on .lessThan (results [a, b]) = .ok (.bool true) → a.units < b.units) ∧
      (∀ low high : MachineNumber, on .between (results [a, low, high]) = .ok (.bool true) ↔
        on .lessThan (results [a, low]) = .ok (.bool false) ∧
          on .greaterThan (results [a, high]) = .ok (.bool false)) ∧
      ((∃! operator, operator ∈ comparisons ∧
        on operator (results [a, b]) = .ok (.bool true)) ↔ a.Separated b) ∧
      (a.Separated b →
        (on .lessThan (results [a, b]) = .ok (.bool true) ↔ a.units < b.units) ∧
          on .between (results [a, b, b]) = on .equals (results [a, b])) := by
  have hreads : ∀ operator ∈ Operator.between :: comparisons, operator.readsValues = true := by
    decide
  refine ⟨fun operator hmem => apply_eq_on (hreads operator hmem), on_equals_eq_true_iff, ?_, ?_,
    on_between_iff a, existsUnique_comparison_iff, ?_⟩
  · rw [on_lessThan, on_greaterThan]
  · intro hless
    exact MachineNumber.units_lt_of_rank_lt (on_lessThan_eq_true_iff.1 hless)
  · intro h
    exact ⟨on_lessThan_eq_true_iff.trans h.rank_lt_iff, on_between_self h⟩

end AnyEngine

/-- The whole number 2^53, from which on binary64 leaves out every other one. -/
def lastExact : MachineNumber := .word (.signed 9007199254740992)

/-- The whole number after it. -/
def firstInexact : MachineNumber := .word (.signed 9007199254740993)

/-- One half, as a floating-point number. -/
def oneHalf : MachineNumber := .float (Binary64.ofRatio false Binary64.one 2)

section BooleanSchemas

attribute [local instance] SchemaEngine.booleans

/-- One half and 2^53 are kept apart, so that less is the exact order. -/
theorem comparisons_of_oneHalf :
    oneHalf.Separated lastExact ∧
      (on .lessThan (results [oneHalf, lastExact]) = .ok (.bool true) ↔
        oneHalf.units < lastExact.units) := by
  have hseparated : oneHalf.Separated lastExact :=
    MachineNumber.separated_of_isExact (MachineNumber.isExact_float _)
      (MachineNumber.isExact_word (by decide))
  exact ⟨hseparated, ((comparisons_of_numbers oneHalf lastExact).2.2.2.2.2.2 hseparated).1⟩

/-- No comparison holds of 2^53 and the number after it. -/
theorem comparisons_fail_above_2_53 :
    lastExact.units < firstInexact.units ∧
      ∀ operator ∈ comparisons,
        on operator (results [lastExact, firstInexact]) = .ok (.bool false) := by
  have hrank : lastExact.toBinary64.rank = firstInexact.toBinary64.rank := by decide +kernel
  have hunits : lastExact.units < firstInexact.units := by decide +kernel
  refine ⟨hunits, ?_⟩
  simp only [comparisons, List.forall_mem_cons]
  refine ⟨?_, ?_, ?_, by simp⟩
  · rw [on_lessThan, hrank]
    simp
  · rw [on_equals, decide_eq_false (Int.ne_of_lt hunits)]
  · rw [on_greaterThan, hrank]
    simp

end BooleanSchemas

end Operator

end TriggerGraph
