import TriggerGraph.Number.Machine
import TriggerGraph.Proofs.Number.Rounding

/-!
# Equality and order of numbers

Whole numbers and floating-point numbers are compared in two ways.  Equality normalizes
both and compares what is left, and that is equality of exact values.  Order converts both
to binary64, which keeps the exact order but may give two different whole numbers one
place.  The two agree on numbers that the conversion keeps apart, and it keeps apart
floating-point numbers and whole numbers up to 2^53.

Main results:

- Theorem `equal_normalized_iff`: normalized numbers are equal when their exact values are.
- Theorem `units_lt_of_rank_lt`: converted numbers are never in the wrong order.
- Theorem `Separated.rank_lt_iff`: on separated numbers the converted order is exact.
- Theorem `separated_of_isExact`: numbers that binary64 represents are separated.
-/

namespace TriggerGraph

namespace Binary64

/-- The magnitude of a whole floating-point number is a whole count of ones. -/
theorem units_of_isWhole {x : Binary64} (h : x.isWhole = true) : x.units = x.whole * one := by
  simp only [isWhole, Bool.and_eq_true, decide_eq_true_eq] at h
  have hmagnitude : x.magnitude / one * one = x.magnitude :=
    Nat.div_mul_cancel (Nat.dvd_of_mod_eq_zero h.2)
  unfold units whole
  split
  · rw [Int.neg_mul, ← Int.natCast_ediv, ← Int.natCast_mul, hmagnitude]
  · rw [← Int.natCast_ediv, ← Int.natCast_mul, hmagnitude]

/-- No word comes near an infinity. -/
theorem word_lt_infinity : 0x10000000000000000 * one < magnitudeOf infinityCode := by
  decide +kernel

/-- A number with the value of a word is whole, with that word. -/
theorem isWhole_of_units {x : Binary64} {w : MachineWord} (h : x.units = w.val * one) :
    x.isWhole = true ∧ x.whole = w.val := by
  have hlower := w.lower
  have hupper := w.upper
  have hone : (0 : Int) < one := Int.natCast_pos.2 one_pos
  have hmagnitude : x.magnitude = w.val.natAbs * one := by
    have habs := congrArg Int.natAbs h
    rw [Int.natAbs_mul, Int.natAbs_natCast] at habs
    rw [← habs, units]
    split <;> simp
  have hfinite : x.isFinite = true := by
    have hle : x.magnitude ≤ 0x10000000000000000 * one := by
      rw [hmagnitude]
      exact Nat.mul_le_mul_right _ (by omega)
    have hne : x.code ≠ infinityCode := by
      intro hcode
      have hlt := word_lt_infinity
      rw [← hcode] at hlt
      exact Nat.not_lt.2 hle hlt
    simpa [isFinite] using Nat.lt_of_le_of_ne x.code_le hne
  have hwhole : x.isWhole = true := by
    simp [isWhole, hfinite, hmagnitude]
  refine ⟨hwhole, ?_⟩
  have hcount := (units_of_isWhole hwhole).symm.trans h
  exact Int.eq_of_mul_eq_mul_right (Int.ne_of_gt hone) hcount

end Binary64

namespace MachineNumber

variable {m n : MachineNumber}

/-! ## Equality -/

/-- Normalizing keeps the exact value. -/
theorem units_normalized (n : MachineNumber) : n.normalized.units = n.units := by
  cases n with
  | word w => rfl
  | float x =>
      cases hwhole : x.isWhole with
      | false => simp [normalized, hwhole]
      | true =>
          cases hword : MachineWord.ofInt? x.whole with
          | none => simp [normalized, hwhole, hword]
          | some w =>
              have hnormal : (float x).normalized = .word w := by
                simp [normalized, hwhole, hword]
              rw [hnormal, units, MachineWord.val_of_ofInt? hword, units,
                Binary64.units_of_isWhole hwhole]

/-- A floating-point number with the value of a word normalizes to it. -/
theorem normalized_float_of_units {x : Binary64} {w : MachineWord}
    (h : (float x).units = (word w).units) : (float x).normalized = .word w := by
  rcases Binary64.isWhole_of_units h with ⟨hwhole, hvalue⟩
  simp [normalized, hwhole, hvalue]

/-- Normalized numbers are equal when their exact values are. -/
theorem equal_normalized_iff : m.normalized.equal n.normalized = true ↔ m.units = n.units := by
  rw [← units_normalized m, ← units_normalized n]
  have hm := normalized_normalized m
  have hn := normalized_normalized n
  generalize m.normalized = a at hm ⊢
  generalize n.normalized = b at hn ⊢
  cases a with
  | word v =>
      cases b with
      | word w =>
          have hone : (Binary64.one : Int) ≠ 0 :=
            Int.ne_of_gt (Int.natCast_pos.2 Binary64.one_pos)
          rw [equal, decide_eq_true_eq, units, units, Int.mul_eq_mul_right_iff hone]
          exact ⟨congrArg MachineWord.val, MachineWord.val_inj⟩
      | float y =>
          refine ⟨fun h => (by cases h), fun h => ?_⟩
          rw [normalized_float_of_units h.symm] at hn
          cases hn
  | float x =>
      cases b with
      | word w =>
          refine ⟨fun h => (by cases h), fun h => ?_⟩
          rw [normalized_float_of_units h] at hm
          cases hm
      | float y =>
          rw [equal, Binary64.equal, decide_eq_true_eq, Binary64.rank_eq_iff]
          rfl

/-! ## Order -/

/-- A converted number has the place nearest to its exact value. -/
theorem rank_toBinary64 (n : MachineNumber) :
    n.toBinary64.rank = Binary64.nearestRank n.units := by
  cases n with
  | word w => exact Binary64.rank_ofInt w.val
  | float x => exact Binary64.rank_eq_nearestRank x

/-- Converted numbers are never in the wrong order. -/
theorem units_lt_of_rank_lt (h : m.toBinary64.rank < n.toBinary64.rank) :
    m.units < n.units := by
  rw [rank_toBinary64, rank_toBinary64] at h
  exact Int.not_le.1 fun hle => Int.not_lt.2 (Binary64.nearestRank_mono hle) h

/-- Converting to binary64 gives the two numbers one place only if they are equal. -/
def Separated (m n : MachineNumber) : Prop :=
  m.toBinary64.rank = n.toBinary64.rank → m.units = n.units

instance : Decidable (Separated m n) :=
  inferInstanceAs (Decidable (m.toBinary64.rank = n.toBinary64.rank → m.units = n.units))

/-- Separated numbers have one place if they have one exact value. -/
theorem Separated.rank_eq_iff (h : m.Separated n) :
    m.toBinary64.rank = n.toBinary64.rank ↔ m.units = n.units := by
  refine ⟨h, fun heq => ?_⟩
  rw [rank_toBinary64, rank_toBinary64, heq]

/-- On separated numbers the converted order is exact. -/
theorem Separated.rank_lt_iff (h : m.Separated n) :
    m.toBinary64.rank < n.toBinary64.rank ↔ m.units < n.units := by
  refine ⟨units_lt_of_rank_lt, fun hlt => ?_⟩
  rcases Int.lt_trichotomy m.toBinary64.rank n.toBinary64.rank with hrank | hrank | hrank
  · exact hrank
  · exact absurd (h hrank) (Int.ne_of_lt hlt)
  · exact absurd (units_lt_of_rank_lt hrank) (Int.not_lt.2 (Int.le_of_lt hlt))

/-! ## Numbers that binary64 represents -/

/-- Converting the number keeps its exact value. -/
def IsExact (n : MachineNumber) : Prop := n.toBinary64.units = n.units

/-- Floating-point numbers are kept as they are. -/
theorem isExact_float (x : Binary64) : (float x).IsExact :=
  rfl

/-- Whole numbers up to 2^53 are kept. -/
theorem isExact_word {w : MachineWord} (h : w.val.natAbs ≤ 0x20000000000000) :
    (word w).IsExact :=
  Binary64.units_ofInt h

/-- Numbers that binary64 represents are separated. -/
theorem separated_of_isExact (hm : m.IsExact) (hn : n.IsExact) : m.Separated n :=
  fun h => hm.symm.trans ((Binary64.units_eq_of_rank_eq h).trans hn)

end MachineNumber

end TriggerGraph
