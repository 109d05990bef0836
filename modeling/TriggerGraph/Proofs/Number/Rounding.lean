import Mathlib.Tactic.SplitIfs
import TriggerGraph.Number.Binary64

/-!
# Rounding keeps order

A count of units is rounded by dropping its last binary digits, as many as leave 53, and
dividing by the power of two that they make up.  Dividing by one power keeps order, and a
count with more digits to drop has a code above every code of a count with fewer.  So the
code nearest to a count never falls when the count grows, but two counts may share one.

Every number has the code nearest to its own count, which orders numbers among themselves
exactly; a whole number has the code nearest to it, which is exact up to 2^53.

Main results:

- Theorem `roundCode_mono`: rounding keeps order.
- Theorems `rank_eq_nearestRank` and `rank_ofInt`: the place of a number among all numbers
  is that of the count it comes from.
- Theorem `rank_eq_iff_eq_or_isZero`: only the two zeros share a place.
- Theorem `rank_lt_iff`: numbers are ordered by their exact values.
- Theorem `units_ofInt`: whole numbers up to 2^53 are kept exactly.
-/

namespace TriggerGraph

namespace Binary64

/-! ## Counts -/

theorem le_divHalfEven (num den : Nat) : num / den ≤ divHalfEven num den := by
  unfold divHalfEven
  dsimp only
  split_ifs <;> omega

theorem divHalfEven_le (num den : Nat) : divHalfEven num den ≤ num / den + 1 := by
  unfold divHalfEven
  dsimp only
  split_ifs <;> omega

/-- Rounding keeps the order of ratios over one denominator. -/
theorem divHalfEven_mono (den : Nat) {a b : Nat} (h : a ≤ b) :
    divHalfEven a den ≤ divHalfEven b den := by
  rcases Nat.lt_or_eq_of_le (Nat.div_le_div_right (c := den) h) with hlt | heq
  · exact Nat.le_trans (divHalfEven_le a den) (Nat.le_trans hlt (le_divHalfEven b den))
  · -- Between the same two quotients the remainders decide.
    have ha := Nat.div_add_mod a den
    have hb := Nat.div_add_mod b den
    rw [heq] at ha
    have hremainder : a % den ≤ b % den := by omega
    unfold divHalfEven
    dsimp only
    rw [heq]
    split_ifs <;> omega

/-- How many binary digits of a count rounding drops. -/
def droppedDigits (n : Nat) : Nat := if n < 0x20000000000000 then 0 else n.log2 - 52

/-- The code of a count is made of the digits dropped and of the mantissa left. -/
theorem roundCode_one (n : Nat) :
    roundCode n 1 = Nat.min
      (droppedDigits n * 0x10000000000000 + divHalfEven n (twoTo (droppedDigits n)))
      infinityCode := by
  unfold roundCode droppedDigits
  dsimp only
  rw [Nat.div_one, Nat.one_mul]

theorem lt_of_droppedDigits (n : Nat) : n < 0x20000000000000 * twoTo (droppedDigits n) := by
  unfold droppedDigits
  split
  · simpa using ‹n < 0x20000000000000›
  · have hne : n ≠ 0 := by omega
    have hlog : 53 ≤ n.log2 := (Nat.le_log2 hne).2 (by omega)
    have hlt : n < twoTo (n.log2 + 1) := Nat.lt_log2_self
    have hsplit : n.log2 + 1 = 53 + (n.log2 - 52) := by omega
    rw [hsplit, twoTo_add] at hlt
    exact hlt

/-- If digits are dropped, 53 are left. -/
theorem le_of_droppedDigits {n : Nat} (h : 0 < droppedDigits n) :
    0x10000000000000 * twoTo (droppedDigits n) ≤ n := by
  unfold droppedDigits at h ⊢
  split at h
  · cases h
  · rename_i hlarge
    have hne : n ≠ 0 := by omega
    have hle : twoTo n.log2 ≤ n := Nat.log2_self_le hne
    have hsplit : n.log2 = 52 + (n.log2 - 52) := by omega
    rw [hsplit, twoTo_add] at hle
    rw [if_neg hlarge]
    exact hle

/-- A larger count drops no fewer digits. -/
theorem droppedDigits_mono {a b : Nat} (h : a ≤ b) : droppedDigits a ≤ droppedDigits b := by
  unfold droppedDigits
  split
  · exact Nat.zero_le _
  · have ha : a ≠ 0 := by omega
    have hlog : a.log2 ≤ b.log2 :=
      (Nat.le_log2 (by omega)).2 (Nat.le_trans (Nat.log2_self_le ha) h)
    rw [if_neg (by omega)]
    omega

/-- A rounded mantissa is at most one step above the greatest one. -/
theorem divHalfEven_droppedDigits_le (n : Nat) :
    divHalfEven n (twoTo (droppedDigits n)) ≤ 0x20000000000000 := by
  have h := divHalfEven_mono (twoTo (droppedDigits n))
    (Nat.le_of_lt (lt_of_droppedDigits n))
  rwa [divHalfEven_mul_self _ (twoTo_pos _)] at h

/-- If digits are dropped, the rounded mantissa has 53 digits. -/
theorem le_divHalfEven_droppedDigits {n : Nat} (h : 0 < droppedDigits n) :
    0x10000000000000 ≤ divHalfEven n (twoTo (droppedDigits n)) := by
  have h := divHalfEven_mono (twoTo (droppedDigits n)) (le_of_droppedDigits h)
  rwa [divHalfEven_mul_self _ (twoTo_pos _)] at h

/-- Rounding keeps order. -/
theorem roundCode_mono {a b : Nat} (h : a ≤ b) : roundCode a 1 ≤ roundCode b 1 := by
  rw [roundCode_one, roundCode_one]
  have hcode : droppedDigits a * 0x10000000000000 + divHalfEven a (twoTo (droppedDigits a)) ≤
      droppedDigits b * 0x10000000000000 + divHalfEven b (twoTo (droppedDigits b)) := by
    rcases Nat.lt_or_eq_of_le (droppedDigits_mono h) with hlt | heq
    · have hlow := divHalfEven_droppedDigits_le a
      have hhigh := le_divHalfEven_droppedDigits (Nat.zero_lt_of_lt hlt)
      omega
    · rw [heq]
      exact Nat.add_le_add_left (divHalfEven_mono _ h) _
  exact Nat.le_min.2 ⟨Nat.le_trans (Nat.min_le_left _ _) hcode, Nat.min_le_right _ _⟩

/-- The magnitude of a code, by its digits. -/
theorem magnitudeOf_digits {mantissa shift : Nat} (hlow : 0x10000000000000 ≤ mantissa)
    (hhigh : mantissa < 0x20000000000000) :
    magnitudeOf (shift * 0x10000000000000 + mantissa) = mantissa * twoTo shift := by
  have hexponent : (shift * 0x10000000000000 + mantissa) / 0x10000000000000 = shift + 1 := by
    omega
  have hfraction : 0x10000000000000 +
      (shift * 0x10000000000000 + mantissa) % 0x10000000000000 = mantissa := by omega
  unfold magnitudeOf
  dsimp only
  rw [hexponent, if_neg (Nat.succ_ne_zero shift), hfraction, Nat.add_sub_cancel]

/-! ## Signed counts -/

/-- The place of the number nearest to a signed count of units. -/
def nearestRank (count : Int) : Int :=
  if count < 0 then -(roundCode count.natAbs 1 : Int) else roundCode count.natAbs 1

/-- Rounding keeps the order of exact values. -/
theorem nearestRank_mono {a b : Int} (h : a ≤ b) : nearestRank a ≤ nearestRank b := by
  unfold nearestRank
  split
  · split
    · have hcode := roundCode_mono (show b.natAbs ≤ a.natAbs by omega)
      omega
    · omega
  · rw [if_neg (by omega)]
    have hcode := roundCode_mono (show a.natAbs ≤ b.natAbs by omega)
    omega

/-- Every number has the code nearest to its own count. -/
theorem rank_eq_nearestRank (x : Binary64) : x.rank = nearestRank x.units := by
  have hcode : roundCode x.magnitude 1 = x.code := roundCode_magnitudeOf x.code_le
  unfold rank units nearestRank
  cases x.negative with
  | false =>
      simp only [Bool.false_eq_true, if_false]
      rw [if_neg (by omega), Int.natAbs_natCast, hcode]
  | true =>
      simp only [if_true]
      by_cases hzero : x.magnitude = 0
      · have hnone : x.code = 0 := by
          rw [← hcode, hzero]
          rfl
        rw [hzero, hnone]
        rfl
      · rw [if_pos (by omega), Int.natAbs_neg, Int.natAbs_natCast, hcode]

theorem one_pos : 0 < one :=
  twoTo_pos 1074

/-- A whole number has the code nearest to it. -/
theorem rank_ofInt (i : Int) : (ofInt i).rank = nearestRank (i * one) := by
  have hone : (0 : Int) < one := Int.natCast_pos.2 one_pos
  have hnegative : i * one < 0 ↔ i < 0 := by
    constructor
    · intro h
      exact Int.not_le.1 fun hi => Int.not_lt.2 (Int.mul_nonneg hi (Int.le_of_lt hone)) h
    · intro h
      exact Int.mul_neg_of_neg_of_pos h hone
  have hcount : (i * (one : Int)).natAbs = i.natAbs * one := by
    rw [Int.natAbs_mul, Int.natAbs_natCast]
  unfold rank ofInt ofRatio nearestRank
  simp only [decide_eq_true_eq, hnegative, hcount]

/-! ## Numbers -/

theorem eq_of_code {x y : Binary64} (hsign : x.negative = y.negative)
    (hcode : x.code = y.code) : x = y := by
  rcases x with ⟨xNegative, xCode, xLe⟩
  rcases y with ⟨yNegative, yCode, yLe⟩
  subst hsign hcode
  rfl

/-- Two numbers in one place are the same, or the two zeros. -/
theorem rank_eq_iff_eq_or_isZero {x y : Binary64} :
    x.rank = y.rank ↔ x = y ∨ x.isZero = true ∧ y.isZero = true := by
  simp only [isZero, decide_eq_true_eq]
  constructor
  · intro h
    unfold rank at h
    cases hx : x.negative <;> cases hy : y.negative <;>
      simp only [hx, hy, Bool.false_eq_true, if_true, if_false] at h
    · exact .inl (eq_of_code (hx.trans hy.symm) (by omega))
    · exact .inr (by omega)
    · exact .inr (by omega)
    · exact .inl (eq_of_code (hx.trans hy.symm) (by omega))
  · rintro (rfl | ⟨hx, hy⟩)
    · rfl
    · simp [rank, hx, hy]

theorem units_of_isZero {x : Binary64} (h : x.isZero = true) : x.units = 0 := by
  have hcode : x.code = 0 := by simpa [isZero] using h
  have hmagnitude : x.magnitude = 0 := by
    rw [magnitude, hcode]
    rfl
  simp [units, hmagnitude]

/-- Numbers in one place have one value. -/
theorem units_eq_of_rank_eq {x y : Binary64} (h : x.rank = y.rank) : x.units = y.units := by
  rcases rank_eq_iff_eq_or_isZero.1 h with rfl | ⟨hx, hy⟩
  · rfl
  · rw [units_of_isZero hx, units_of_isZero hy]

/-- Numbers have one place if they have one value. -/
theorem rank_eq_iff {x y : Binary64} : x.rank = y.rank ↔ x.units = y.units := by
  refine ⟨units_eq_of_rank_eq, fun h => ?_⟩
  rw [rank_eq_nearestRank, rank_eq_nearestRank, h]

/-- Numbers are ordered by their exact values. -/
theorem rank_lt_iff {x y : Binary64} : x.rank < y.rank ↔ x.units < y.units := by
  have hmono : ∀ {x y : Binary64}, x.units ≤ y.units → x.rank ≤ y.rank := by
    intro x y h
    rw [rank_eq_nearestRank, rank_eq_nearestRank]
    exact nearestRank_mono h
  constructor
  · intro h
    exact Int.not_le.1 fun hle => Int.not_lt.2 (hmono hle) h
  · intro h
    have hne : x.rank ≠ y.rank := fun heq => Int.ne_of_lt h (rank_eq_iff.1 heq)
    exact Int.lt_iff_le_and_ne.2 ⟨hmono (Int.le_of_lt h), hne⟩

/-! ## Exact whole numbers -/

/-- A count of 53 digits and zeros is kept. -/
theorem magnitudeOf_roundCode_digits {mantissa shift : Nat} (hlow : 0x10000000000000 ≤ mantissa)
    (hhigh : mantissa < 0x20000000000000) (hshift : 0 < shift)
    (hfits : shift * 0x10000000000000 + mantissa ≤ infinityCode) :
    magnitudeOf (roundCode (mantissa * twoTo shift) 1) = mantissa * twoTo shift := by
  rw [roundCode_of_step hlow hhigh hshift]
  have hmin : Nat.min (shift * 0x10000000000000 + mantissa) infinityCode =
      shift * 0x10000000000000 + mantissa := Nat.min_eq_left hfits
  rw [hmin, magnitudeOf_digits hlow hhigh]

/-- Whole numbers up to 2^53 are represented exactly. -/
theorem magnitudeOf_roundCode_mul_one {a : Nat} (h : a ≤ 0x20000000000000) :
    magnitudeOf (roundCode (a * one) 1) = a * one := by
  have hinfinity : infinityCode = 0x7FF0000000000000 := rfl
  by_cases hzero : a = 0
  · rw [hzero, Nat.zero_mul]
    rfl
  rcases Nat.lt_or_eq_of_le h with hlt | heq
  · -- The digits of the number are moved up until there are 53 of them.
    have hlog : a.log2 < 53 := (Nat.log2_lt hzero).2 hlt
    have hlow : 0x10000000000000 ≤ a * twoTo (52 - a.log2) := by
      have hpower : twoTo (a.log2 + (52 - a.log2)) = 0x10000000000000 := by
        rw [show a.log2 + (52 - a.log2) = 52 by omega]
        rfl
      rw [← hpower, twoTo_add]
      exact Nat.mul_le_mul_right _ (Nat.log2_self_le hzero)
    have hhigh : a * twoTo (52 - a.log2) < 0x20000000000000 := by
      have hpower : twoTo (a.log2 + 1 + (52 - a.log2)) = 0x20000000000000 := by
        rw [show a.log2 + 1 + (52 - a.log2) = 53 by omega]
        rfl
      rw [← hpower, twoTo_add]
      exact (Nat.mul_lt_mul_right (twoTo_pos _)).2 Nat.lt_log2_self
    have hcount : a * one = a * twoTo (52 - a.log2) * twoTo (1022 + a.log2) := by
      rw [Nat.mul_assoc, ← twoTo_add, show 52 - a.log2 + (1022 + a.log2) = 1074 by omega]
      rfl
    rw [hcount]
    exact magnitudeOf_roundCode_digits hlow hhigh (by omega) (by omega)
  · have hcount : a * one = 0x10000000000000 * twoTo 1075 := by
      rw [heq, one, twoTo_succ 1074, ← Nat.mul_assoc]
    rw [hcount]
    exact magnitudeOf_roundCode_digits (Nat.le_refl _) (by decide) (by decide) (by decide)

/-- Whole numbers up to 2^53 are kept exactly. -/
theorem units_ofInt {i : Int} (h : i.natAbs ≤ 0x20000000000000) :
    (ofInt i).units = i * one := by
  have hmagnitude : (ofInt i).magnitude = i.natAbs * one := magnitudeOf_roundCode_mul_one h
  have hnegative : (ofInt i).negative = decide (i < 0) := rfl
  rw [units, hmagnitude, hnegative, Int.natCast_mul]
  by_cases hneg : i < 0
  · rw [if_pos (by simpa using hneg), Int.ofNat_natAbs_of_nonpos (by omega), Int.neg_mul,
      Int.neg_neg]
  · rw [if_neg (by simpa using hneg), Int.natAbs_of_nonneg (by omega)]

end Binary64

end TriggerGraph
