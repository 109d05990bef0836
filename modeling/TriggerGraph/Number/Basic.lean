import TriggerGraph.Number.Binary64

/-!
# Numbers of documents

A number of a document is a whole number that fits a signed or an unsigned 64-bit
word, or a binary64 number.  The two kinds stay apart, and a whole number equals no
floating-point number.  It may be asked for as a word of either kind or in floating
point, and only the last has an answer for every number.

Main results:

- Theorems `signed?_ofInt64` and `unsigned?_ofUInt64`: a word is had back from its
  number.
- Theorems `int_of_signed?`, `int_of_unsigned?` and `toBinary64_of_unsigned?`: the first
  form that a number has is the number.
- Theorem `large_of_signed?`: what fits an unsigned word alone is above the greatest
  signed one.
-/

namespace TriggerGraph

/-! ## Whole numbers of one word -/

/-- A whole number that fits a signed or an unsigned 64-bit word. -/
structure WordInt where
  val : Int
  lower : -0x8000000000000000 ≤ val
  upper : val < 0x10000000000000000
deriving DecidableEq

namespace WordInt

/-- The word of a whole number in range. -/
def ofInt? (i : Int) : Option WordInt :=
  if h : -0x8000000000000000 ≤ i ∧ i < 0x10000000000000000 then some ⟨i, h.1, h.2⟩ else none

/-- Whether only an unsigned word holds the number. -/
def isUnsigned (i : WordInt) : Bool := 0x8000000000000000 ≤ i.val

/-- The word of an unsigned 64-bit number. -/
def ofUInt64 (n : UInt64) : WordInt :=
  ⟨n.toNat, by omega, by have := n.toNat_lt; omega⟩

/-- The word of a signed 64-bit number. -/
def ofInt64 (n : Int64) : WordInt :=
  ⟨n.toInt, n.le_toInt, by have := n.toInt_lt; omega⟩

@[simp] theorem ofInt?_val (i : WordInt) : ofInt? i.val = some i := by
  exact dif_pos ⟨i.lower, i.upper⟩

theorem isUnsigned_ofInt64 (n : Int64) : (ofInt64 n).isUnsigned = false :=
  decide_eq_false (Int.not_le.2 n.toInt_lt)

end WordInt

/-! ## Numbers -/

/-- A whole number of one word, or a floating-point number. -/
inductive Number where
  | int (i : WordInt)
  | float (x : Binary64)
deriving DecidableEq

namespace Number

/-- Whether the number is no infinity. -/
def isFinite : Number → Bool
  | .int _ => true
  | .float x => x.isFinite

/-- Equality of two numbers of one kind: floating-point numbers by value, so
that both zeros are equal. -/
def equal : Number → Number → Bool
  | .int i, .int j => i = j
  | .float x, .float y => x.equal y
  | _, _ => false

/-! ## As words and in floating point -/

/-- The number as a signed word, if it is whole and fits. -/
def signed? : Number → Option Int64
  | .int i => if i.isUnsigned then none else some (Int64.ofInt i.val)
  | .float _ => none

/-- The number as an unsigned word, if it is whole and fits. -/
def unsigned? : Number → Option UInt64
  | .int i => if 0 ≤ i.val then some (UInt64.ofNat i.val.toNat) else none
  | .float _ => none

/-- The binary64 number nearest to the value. -/
def toBinary64 : Number → Binary64
  | .int i => Binary64.ofInt i.val
  | .float x => x

/-- A signed word is had back from its number. -/
@[simp] theorem signed?_ofInt64 (n : Int64) : signed? (.int (.ofInt64 n)) = some n := by
  have hval : (WordInt.ofInt64 n).val = n.toInt := rfl
  simp only [signed?, WordInt.isUnsigned_ofInt64, Bool.false_eq_true, ↓reduceIte, hval,
    Int64.ofInt_toInt]

/-- An unsigned word is had back from its number. -/
@[simp] theorem unsigned?_ofUInt64 (n : UInt64) : unsigned? (.int (.ofUInt64 n)) = some n := by
  simp [unsigned?, WordInt.ofUInt64]

/-- A number that is a signed word is that word. -/
theorem int_of_signed? {n : Number} {i : Int64} (h : n.signed? = some i) :
    .int (.ofInt64 i) = n := by
  cases n with
  | float x => cases h
  | int j =>
      obtain ⟨val, lower, upper⟩ := j
      rw [signed?] at h
      split at h
      · cases h
      · rename_i hsmall
        simp only [WordInt.isUnsigned, decide_eq_true_eq] at hsmall
        cases h
        have hval : (Int64.ofInt val).toInt = val := Int64.toInt_ofInt_of_le lower (by omega)
        simp only [WordInt.ofInt64, hval]

/-- A number that is an unsigned word is that word. -/
theorem int_of_unsigned? {n : Number} {u : UInt64} (h : n.unsigned? = some u) :
    .int (.ofUInt64 u) = n := by
  cases n with
  | float x => cases h
  | int j =>
      obtain ⟨val, lower, upper⟩ := j
      rw [unsigned?] at h
      split at h
      · have hnonneg : 0 ≤ val := ‹_›
        cases h
        have hval : ((UInt64.ofNat val.toNat).toNat : Int) = val := by
          rw [UInt64.toNat_ofNat']
          omega
        simp only [WordInt.ofUInt64, hval]
      · cases h

/-- A number that is no word is a floating-point number. -/
theorem toBinary64_of_unsigned? {n : Number} (hsigned : n.signed? = none)
    (hunsigned : n.unsigned? = none) : .float n.toBinary64 = n := by
  cases n with
  | float x => rfl
  | int i =>
      simp only [signed?, unsigned?, WordInt.isUnsigned, ite_eq_left_iff, ite_eq_right_iff,
        decide_eq_true_eq, reduceCtorEq, imp_false, Decidable.not_not] at hsigned hunsigned
      omega

/-- What fits an unsigned word alone is above the greatest signed one. -/
theorem large_of_signed? {n : Number} {u : UInt64} (hsigned : n.signed? = none)
    (hunsigned : n.unsigned? = some u) : 0x7fffffffffffffff < u := by
  cases n with
  | float x => cases hunsigned
  | int i =>
      have hmax : (0x7fffffffffffffff : UInt64).toNat = 2 ^ 63 - 1 := by decide
      have hlarge : 0x8000000000000000 ≤ i.val := by
        simpa [signed?, WordInt.isUnsigned] using hsigned
      have hupper := i.upper
      rw [unsigned?, if_pos (by omega)] at hunsigned
      rw [UInt64.lt_iff_toNat_lt, hmax, ← Option.some.inj hunsigned, UInt64.toNat_ofNat']
      omega

end Number

end TriggerGraph
