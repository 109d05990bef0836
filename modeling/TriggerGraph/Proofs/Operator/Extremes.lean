import Mathlib.Data.Int.Order.Basic
import Mathlib.Order.RelClasses
import TriggerGraph.Proofs.Operator.Comparison
import TriggerGraph.Proofs.Value.LooseEquality

/-!
# The least and the greatest number of a list

The least number of a list is sought among its numbers as binary64 represents them.  Since
rounding keeps order, what comes out is the rounded least number by exact value; but a whole
number that binary64 does not represent is lost on the way.  The greatest number is sought
alike, so all of it is said once, for an order of whole numbers that runs upwards or
downwards and for the choice between two numbers that goes with it.

Main results:

- Theorem `Picks.exists_isFirst`: what a choice leaves of a list is its first number, rounded.
- Theorem `IsFirst.foundFirst_iff`: when that is an element of the list and its first.
- Theorem `least_and_greatest`: what the two operators compute, for all operands.
- Theorem `least_is_lost_above_2_53`: a list in which neither result is found.
-/

namespace TriggerGraph

/-- Only zero rounds to a zero. -/
theorem MachineNumber.units_of_isZero {n : MachineNumber} (h : n.toBinary64.isZero = true) :
    n.units = 0 := by
  cases n with
  | float x => exact Binary64.units_of_isZero h
  | word w =>
      -- The neighbours of zero have places of their own, and rounding keeps order.
      have habove : 0 < Binary64.nearestRank (1 * Binary64.one) := by decide +kernel
      have hbelow : Binary64.nearestRank (-1 * Binary64.one) < 0 := by decide +kernel
      have hrank : Binary64.nearestRank (w.val * Binary64.one) = 0 := by
        have hcode : (Binary64.ofInt w.val).code = 0 := of_decide_eq_true h
        rw [← Binary64.rank_ofInt, Binary64.rank, hcode]
        simp
      have hone : (0 : Int) ≤ Binary64.one := Int.natCast_nonneg _
      have hzero : w.val = 0 := by
        rcases Int.lt_trichotomy w.val 0 with hneg | hzero | hpos
        · have hle := Binary64.nearestRank_mono
            (Int.mul_le_mul_of_nonneg_right (show w.val ≤ -1 by omega) hone)
          omega
        · exact hzero
        · have hle := Binary64.nearestRank_mono
            (Int.mul_le_mul_of_nonneg_right (show 1 ≤ w.val by omega) hone)
          omega
      rw [MachineNumber.units, hzero, Int.zero_mul]

/-! ## The numbers of a list -/

namespace Value

/-- The number that a value is. -/
def number? : Value → Option MachineNumber
  | .number n => some n
  | _ => none

/-- The numbers among values. -/
def numbersAmong (items : List Value) : List MachineNumber := items.filterMap number?

theorem mem_numbersAmong_iff {items : List Value} {n : MachineNumber} :
    n ∈ numbersAmong items ↔ .number n ∈ items := by
  rw [numbersAmong, List.mem_filterMap]
  constructor
  · rintro ⟨v, hv, hn⟩
    cases v with
    | number m =>
        cases hn
        exact hv
    | _ => cases hn
  · intro hn
    exact ⟨.number n, hn, rfl⟩

theorem filterMap_toBinary64? (items : List Value) :
    items.filterMap toBinary64? = (numbersAmong items).map MachineNumber.toBinary64 := by
  rw [numbersAmong, List.map_filterMap]
  refine List.filterMap_congr fun v _ => ?_
  cases v <;> rfl

end Value

namespace Operator

open Binary64 (nearestRank)
open Value (numbersAmong mem_numbersAmong_iff)

variable {before : Int → Int → Prop} {choose : Binary64 → Binary64 → Binary64}
  {items : List Value} {n : MachineNumber}

/-! ## Choosing among places -/

/-- A choice between two numbers takes one whose place comes first, in an order that rounding
keeps. -/
structure Picks (before : Int → Int → Prop) (choose : Binary64 → Binary64 → Binary64) :
    Prop where
  eq_or : ∀ x y, choose x y = x ∨ choose x y = y
  left : ∀ x y, before (choose x y).rank x.rank
  right : ∀ x y, before (choose x y).rank y.rank
  round : ∀ {a b : Int}, before a b → before (nearestRank a) (nearestRank b)

variable [IsLinearOrder Int before]

/-- A choice that leaves the first number for the second one only when that comes first. -/
theorem Picks.of_leaves {leaves : Binary64 → Binary64 → Bool}
    (hchoose : ∀ x y, choose x y = if leaves x y then y else x)
    (hleft : ∀ x y, leaves x y = true → before y.rank x.rank)
    (hstays : ∀ x y, leaves x y = false → before x.rank y.rank)
    (hround : ∀ {a b : Int}, before a b → before (nearestRank a) (nearestRank b)) :
    Picks before choose where
  eq_or x y := by
    rw [hchoose]
    split
    · exact .inr rfl
    · exact .inl rfl
  left x y := by
    rw [hchoose]
    split
    · exact hleft x y ‹leaves x y = true›
    · exact refl_of before x.rank
  right x y := by
    rw [hchoose]
    split
    · exact refl_of before y.rank
    · exact hstays x y (Bool.eq_false_iff.2 ‹¬ leaves x y = true›)
  round := hround

/-- The smaller of two numbers comes first upwards. -/
theorem picks_min : Picks (· ≤ ·) Binary64.min := by
  refine .of_leaves (fun _ _ => rfl) ?_ ?_ Binary64.nearestRank_mono
  · intro x y hless
    exact Int.le_of_lt (of_decide_eq_true hless)
  · intro x y hless
    exact Int.not_lt.1 (of_decide_eq_false hless)

/-- The larger of two numbers comes first downwards. -/
theorem picks_max : Picks (· ≥ ·) Binary64.max := by
  refine .of_leaves (fun _ _ => rfl) ?_ ?_ Binary64.nearestRank_mono
  · intro x y hless
    exact Int.le_of_lt (of_decide_eq_true hless)
  · intro x y hless
    exact Int.not_lt.1 (of_decide_eq_false hless)

omit [IsLinearOrder Int before] in
/-- What a choice leaves is one of the numbers it chose among. -/
theorem Picks.foldl_mem (h : Picks before choose) (x : Binary64) (rest : List Binary64) :
    rest.foldl choose x ∈ x :: rest := by
  induction rest generalizing x with
  | nil => simp
  | cons y rest ih =>
      rw [List.foldl_cons]
      rcases List.mem_cons.1 (ih (choose x y)) with hfirst | hrest
      · rcases h.eq_or x y with hx | hy
        · rw [hfirst, hx]
          simp
        · rw [hfirst, hy]
          simp
      · simp [hrest]

/-- None of the numbers comes before what a choice leaves of them. -/
theorem Picks.before_foldl (h : Picks before choose) (x : Binary64) (rest : List Binary64) :
    ∀ y ∈ x :: rest, before (rest.foldl choose x).rank y.rank := by
  induction rest generalizing x with
  | nil =>
      intro y hy
      rw [List.mem_singleton.1 hy]
      exact refl_of before x.rank
  | cons z rest ih =>
      intro y hy
      rw [List.foldl_cons]
      have hchosen := ih (choose x z) (choose x z) List.mem_cons_self
      rcases List.mem_cons.1 hy with rfl | hy
      · exact trans_of before hchosen (h.left y z)
      · rcases List.mem_cons.1 hy with rfl | hy
        · exact trans_of before hchosen (h.right x y)
        · exact ih (choose x z) y (List.mem_cons_of_mem _ hy)

/-- So an extreme is one of the numbers, and none of them comes before it. -/
theorem Picks.extreme (h : Picks before choose) {xs : List Binary64} (hxs : xs ≠ []) :
    extreme choose xs ∈ xs ∧ ∀ y ∈ xs, before (extreme choose xs).rank y.rank := by
  cases xs with
  | nil => exact absurd rfl hxs
  | cons x rest => exact ⟨h.foldl_mem x rest, h.before_foldl x rest⟩

/-! ## The first number of a list -/

/-- A number of a list that none of its numbers comes before, by exact value. -/
structure IsFirst (before : Int → Int → Prop) (items : List Value) (n : MachineNumber) : Prop where
  mem : .number n ∈ items
  before : ∀ m, .number m ∈ items → before n.units m.units

/-- Of finitely many numbers one comes first. -/
theorem exists_first_number {numbers : List MachineNumber} (h : numbers ≠ []) :
    ∃ n ∈ numbers, ∀ m ∈ numbers, before n.units m.units := by
  induction numbers with
  | nil => exact absurd rfl h
  | cons k rest ih =>
      by_cases hrest : rest = []
      · refine ⟨k, List.mem_cons_self, fun m hm => ?_⟩
        rw [hrest, List.mem_singleton] at hm
        rw [hm]
        exact refl_of before k.units
      · rcases ih hrest with ⟨n, hn, hfirst⟩
        rcases total_of before k.units n.units with hkn | hnk
        · refine ⟨k, List.mem_cons_self, fun m hm => ?_⟩
          rcases List.mem_cons.1 hm with rfl | hm
          · exact refl_of before m.units
          · exact trans_of before hkn (hfirst m hm)
        · refine ⟨n, List.mem_cons_of_mem k hn, fun m hm => ?_⟩
          rcases List.mem_cons.1 hm with rfl | hm
          · exact hnk
          · exact hfirst m hm

/-- What a choice leaves of the numbers of a list is its first number, rounded. -/
theorem Picks.exists_isFirst (h : Picks before choose) (hitems : ∃ n, Value.number n ∈ items) :
    ∃ n, IsFirst before items n ∧
      Operator.extreme choose (items.filterMap Value.toBinary64?) = n.toBinary64 := by
  have hnumbers : numbersAmong items ≠ [] := by
    rcases hitems with ⟨n, hn⟩
    exact List.ne_nil_of_mem (mem_numbersAmong_iff.2 hn)
  have hexists : ∃ n ∈ numbersAmong items, ∀ m ∈ numbersAmong items,
      before n.units m.units := exists_first_number hnumbers
  rw [Value.filterMap_toBinary64?]
  rcases hexists with ⟨n, hn, hfirst⟩
  rcases h.extreme (mt List.map_eq_nil_iff.1 hnumbers) with ⟨hchosen, hbefore⟩
  rcases List.mem_map.1 hchosen with ⟨k, hk, hvalue⟩
  rw [← hvalue] at hbefore ⊢
  -- The number chosen comes from an element, which rounds to the place of the first one.
  have hrank : k.toBinary64.rank = n.toBinary64.rank := by
    refine antisymm_of before (hbefore _ (List.mem_map_of_mem hn)) ?_
    rw [MachineNumber.rank_toBinary64, MachineNumber.rank_toBinary64]
    exact h.round (hfirst k hk)
  simp only [mem_numbersAmong_iff] at hn hk hfirst
  rcases Binary64.rank_eq_iff_eq_or_isZero.1 hrank with hsame | ⟨hkZero, hnZero⟩
  · exact ⟨n, ⟨hn, hfirst⟩, hsame⟩
  · -- Zeros of two signs share a place; then the chosen element is a first one itself.
    have hunits : k.units = n.units :=
      (MachineNumber.units_of_isZero hkZero).trans (MachineNumber.units_of_isZero hnZero).symm
    exact ⟨k, ⟨hk, fun m hm => hunits ▸ hfirst m hm⟩, rfl⟩

omit [IsLinearOrder Int before] in
/-- Without a number in a list both choices are zero. -/
theorem extreme_of_no_number (hitems : ∀ n, Value.number n ∉ items) :
    extreme choose (items.filterMap Value.toBinary64?) = Binary64.zero := by
  have hnone : numbersAmong items = [] :=
    List.eq_nil_iff_forall_not_mem.2 fun n hn => hitems n (mem_numbersAmong_iff.1 hn)
  rw [Value.filterMap_toBinary64?, hnone]
  rfl

section AnyEngine

variable [SchemaEngine]

/-- The number is found among the items, and by exact value no number among them comes
before it. -/
def FoundFirst (before : Int → Int → Prop) (items : List Value) (x : Binary64) : Prop :=
  on .containsElement [some (.list items), some (.number (.float x))] = .ok (.bool true) ∧
    ∀ m, .number m ∈ items → before x.units m.units

omit [IsLinearOrder Int before] in
/-- A floating-point number is found in a list if some number there has its exact value. -/
theorem on_containsElement_number_iff {x : Binary64} :
    on .containsElement [some (.list items), some (.number (.float x))] = .ok (.bool true) ↔
      ∃ m, .number m ∈ items ∧ m.units = x.units := by
  rw [on_containsElement_eq_true_iff, Value.isElementOf, List.any_eq_true]
  constructor
  · rintro ⟨v, hv, hequal⟩
    rcases Value.exists_number_of_looselyEqual hequal with ⟨m, rfl, hunits⟩
    exact ⟨m, hv, hunits⟩
  · rintro ⟨m, hm, hunits⟩
    exact ⟨.number m, hm, Value.looselyEqual_number_iff.2 hunits⟩

/-- The first number, rounded, is found first exactly when rounding has kept it. -/
theorem IsFirst.foundFirst_iff (h : IsFirst before items n) :
    FoundFirst before items n.toBinary64 ↔ n.IsExact := by
  unfold FoundFirst MachineNumber.IsExact
  rw [on_containsElement_number_iff]
  constructor
  · rintro ⟨⟨m, hm, hunits⟩, hfirst⟩
    refine antisymm_of before (hfirst n h.mem) ?_
    rw [← hunits]
    exact h.before m hm
  · intro hexact
    rw [hexact]
    exact ⟨⟨n, h.mem, rfl⟩, h.before⟩

/-! ## The operators -/

/-- What the least and the greatest number of a list are, for all operands.  Without a number
in the list, and without a list, both are zero.  Otherwise each is the binary64 number nearest
to a number of the list that, by exact value, none of its numbers is below or above; and it
is found in the list, with no number below or above it, exactly when binary64 represents that
number. -/
theorem least_and_greatest (operands : Operands) :
    let items := (operands.list? 0).getD []
    ((∀ n, Value.number n ∉ items) →
        apply .min operands = .ok (.number (.float .zero)) ∧
          apply .max operands = .ok (.number (.float .zero))) ∧
      ((∃ n, Value.number n ∈ items) →
        (∃ least, IsFirst (· ≤ ·) items least ∧
          apply .min operands = .ok (.number (.float least.toBinary64)) ∧
          (FoundFirst (· ≤ ·) items least.toBinary64 ↔ least.IsExact)) ∧
        ∃ greatest, IsFirst (· ≥ ·) items greatest ∧
          apply .max operands = .ok (.number (.float greatest.toBinary64)) ∧
          (FoundFirst (· ≥ ·) items greatest.toBinary64 ↔ greatest.IsExact)) := by
  intro items
  have hmin : apply .min operands =
      .ok (.number (.float (extreme Binary64.min (items.filterMap Value.toBinary64?)))) := rfl
  have hmax : apply .max operands =
      .ok (.number (.float (extreme Binary64.max (items.filterMap Value.toBinary64?)))) := rfl
  refine ⟨fun hnone => ?_, fun hsome => ⟨?_, ?_⟩⟩
  · rw [hmin, hmax, extreme_of_no_number hnone, extreme_of_no_number hnone]
    exact ⟨rfl, rfl⟩
  · rcases picks_min.exists_isFirst hsome with ⟨least, hleast, hextreme⟩
    rw [hmin, hextreme]
    exact ⟨least, hleast, rfl, hleast.foundFirst_iff⟩
  · rcases picks_max.exists_isFirst hsome with ⟨greatest, hgreatest, hextreme⟩
    rw [hmax, hextreme]
    exact ⟨greatest, hgreatest, rfl, hgreatest.foundFirst_iff⟩

end AnyEngine

section BooleanSchemas

attribute [local instance] SchemaEngine.booleans

/-- The whole number after 2^53, alone in a list, comes out as 2^53, which is no element of
the list and below its greatest number. -/
theorem least_is_lost_above_2_53 :
    on .min [some (.list [.number firstInexact])] =
        .ok (.number (.float lastExact.toBinary64)) ∧
      on .max [some (.list [.number firstInexact])] =
        .ok (.number (.float lastExact.toBinary64)) ∧
      on .containsElement [some (.list [.number firstInexact]),
        some (.number (.float lastExact.toBinary64))] = .ok (.bool false) ∧
      lastExact.toBinary64.units < firstInexact.units := by
  have hsame : lastExact.toBinary64 = firstInexact.toBinary64 := by decide +kernel
  have hsearch : Value.isElementOf (.number (.float lastExact.toBinary64))
      [.number firstInexact] = false := by decide +kernel
  refine ⟨?_, ?_, ?_, by decide +kernel⟩
  · rw [hsame]
    rfl
  · rw [hsame]
    rfl
  · rw [on_containsElement, hsearch]

end BooleanSchemas

end Operator

end TriggerGraph
