/-!
# Binary floating point in 64 bits

A binary64 number is a sign and a code, the 63 bits below the sign bit.  Codes
are in the order of the magnitudes they stand for, so two numbers compare as
their signed codes do.  Magnitudes are counted in units of 2^-1074, the least
positive binary64 number: every finite magnitude is a whole count of units, and
arithmetic is exact arithmetic on counts followed by one rounding.  There is no
not-a-number, and an infinity carries the count that the next larger exponent
would have.

Main results:

- Theorem `roundCode_magnitudeOf`: a count that some code stands for rounds to
  that code.
- Theorem `ofBits?_toBits`: the bit pattern determines the number.
-/

namespace TriggerGraph

/-! ## Powers -/

/-- A power of two. -/
def twoTo (k : Nat) : Nat := Nat.pow 2 k

/-- A power of ten. -/
def tenTo (k : Nat) : Nat := Nat.pow 10 k

theorem twoTo_pos (k : Nat) : 0 < twoTo k :=
  Nat.pow_pos (by decide)

@[simp] theorem twoTo_zero : twoTo 0 = 1 :=
  rfl

theorem twoTo_succ (k : Nat) : twoTo (k + 1) = 2 * twoTo k := by
  rw [Nat.mul_comm]
  rfl

theorem twoTo_add (j k : Nat) : twoTo (j + k) = twoTo j * twoTo k :=
  Nat.pow_add 2 j k

/-! ## Numbers -/

/-- The code of the infinities. -/
def infinityCode : Nat := 0x7FF0000000000000

/-- A binary64 number other than a not-a-number. -/
structure Binary64 where
  negative : Bool
  code : Nat
  code_le : code ≤ infinityCode
deriving DecidableEq

namespace Binary64

/-! ## Magnitudes -/

/-- How many units make one. -/
def one : Nat := twoTo 1074

/-- The units that a code stands for: codes below 2^53 count units directly, and
each further exponent doubles the step. -/
def magnitudeOf (code : Nat) : Nat :=
  let exponent := code / 0x10000000000000
  let fraction := code % 0x10000000000000
  if exponent = 0 then fraction else (0x10000000000000 + fraction) * twoTo (exponent - 1)

/-- The magnitude in units. -/
def magnitude (x : Binary64) : Nat := magnitudeOf x.code

/-- The exact value in units. -/
def units (x : Binary64) : Int := if x.negative then -x.magnitude else x.magnitude

/-- The signed code, which orders numbers by value and gives both zeros one place. -/
def rank (x : Binary64) : Int := if x.negative then -x.code else x.code

/-- Whether the number is no infinity. -/
def isFinite (x : Binary64) : Bool := x.code < infinityCode

/-- Whether the number is one of the two zeros. -/
def isZero (x : Binary64) : Bool := x.code = 0

/-- Whether the value is a whole number. -/
def isWhole (x : Binary64) : Bool := x.isFinite && x.magnitude % one = 0

/-- The value without its fraction. -/
def whole (x : Binary64) : Int :=
  if x.negative then -(x.magnitude / one) else x.magnitude / one

/-! ## Comparison by value -/

/-- Equality by value; both zeros are equal. -/
def equal (x y : Binary64) : Bool := x.rank = y.rank

/-- Order by value. -/
def less (x y : Binary64) : Bool := x.rank < y.rank

/-! ## Rounding -/

/-- `num / den` to the nearest whole number, a half to the even neighbour. -/
def divHalfEven (num den : Nat) : Nat :=
  let quotient := num / den
  let twice := 2 * (num % den)
  if twice < den then quotient
  else if den < twice then quotient + 1
  else quotient + quotient % 2

/-- The code nearest to `num / den` units.  Below 2^53 units the grid has step
one; above, the step is the power of two that leaves 53 binary digits. -/
def roundCode (num den : Nat) : Nat :=
  let quotient := num / den
  let shift := if quotient < 0x20000000000000 then 0 else quotient.log2 - 52
  Nat.min (shift * 0x10000000000000 + divHalfEven num (den * twoTo shift)) infinityCode

theorem roundCode_le (num den : Nat) : roundCode num den ≤ infinityCode :=
  Nat.min_le_right _ _

/-- The number nearest to `num / den` units, with the given sign. -/
def ofRatio (negative : Bool) (num den : Nat) : Binary64 :=
  ⟨negative, roundCode num den, roundCode_le num den⟩

/-! ## Constants and conversions -/

/-- Positive zero. -/
def zero : Binary64 := ⟨false, 0, Nat.zero_le _⟩

/-- Negative zero. -/
def negZero : Binary64 := ⟨true, 0, Nat.zero_le _⟩

/-- The infinity of a sign. -/
def infinity (negative : Bool) : Binary64 := ⟨negative, infinityCode, Nat.le_refl _⟩

/-- The number nearest to a whole number. -/
def ofInt (i : Int) : Binary64 := ofRatio (decide (i < 0)) (i.natAbs * one) 1

/-- The number nearest to `digits * 10 ^ exponent`.  Exponents that leave the
range whatever the digits are settled without computing the power. -/
def ofDecimal (negative : Bool) (digits : Nat) (exponent : Int) : Binary64 :=
  if digits = 0 then ⟨negative, 0, Nat.zero_le _⟩
  else if 310 < exponent then infinity negative
  else if exponent < -(digits.log2 + 400 : Int) then ⟨negative, 0, Nat.zero_le _⟩
  else if 0 ≤ exponent then ofRatio negative (digits * tenTo exponent.toNat * one) 1
  else ofRatio negative (digits * one) (tenTo (-exponent).toNat)

/-- The 64-bit pattern, sign bit first. -/
def toBits (x : Binary64) : Nat :=
  if x.negative then 0x8000000000000000 + x.code else x.code

/-- The number of a 64-bit pattern, if it is a number. -/
def ofBits? (bits : Nat) : Option Binary64 :=
  if h : bits % 0x8000000000000000 ≤ infinityCode then
    some ⟨decide (0x8000000000000000 ≤ bits), bits % 0x8000000000000000, h⟩
  else none

/-! ## Arithmetic -/

/-- The sum, rounded once.  An infinite operand is the sum, the left one first;
a sum of zero is negative only when both operands are. -/
def add (x y : Binary64) : Binary64 :=
  if !x.isFinite then x
  else if !y.isFinite then y
  else
    let sum := x.units + y.units
    ofRatio (if sum = 0 then x.negative && y.negative else decide (sum < 0)) sum.natAbs 1

/-- The quotient, rounded once, for a finite divisor other than zero. -/
def div (x y : Binary64) : Binary64 :=
  if !x.isFinite then ⟨xor x.negative y.negative, x.code, x.code_le⟩
  else ofRatio (xor x.negative y.negative) (x.magnitude * one) y.magnitude

/-- The smaller of two numbers, the first of equal ones. -/
def min (x y : Binary64) : Binary64 := if y.less x then y else x

/-- The larger of two numbers, the first of equal ones. -/
def max (x y : Binary64) : Binary64 := if x.less y then y else x

/-! ## Laws of the conversions -/

theorem divHalfEven_mul_self (n : Nat) {den : Nat} (h : 0 < den) :
    divHalfEven (n * den) den = n := by
  simp [divHalfEven, Nat.mul_div_cancel _ h, h]

theorem divHalfEven_one (n : Nat) : divHalfEven n 1 = n := by
  have h := divHalfEven_mul_self n (show 0 < 1 by decide)
  rwa [Nat.mul_one] at h

/-- Below 2^53 units the code is the count. -/
theorem roundCode_of_lt {n : Nat} (h : n < 0x20000000000000) :
    roundCode n 1 = Nat.min n infinityCode := by
  unfold roundCode
  dsimp only
  rw [Nat.div_one, if_pos h, Nat.zero_mul, Nat.zero_add, twoTo_zero, Nat.mul_one,
    divHalfEven_one]

/-- The binary logarithm of a mantissa of 53 digits, shifted. -/
theorem log2_shifted {mantissa : Nat} (hlow : 0x10000000000000 ≤ mantissa)
    (hhigh : mantissa < 0x20000000000000) (shift : Nat) :
    (mantissa * twoTo shift).log2 = 52 + shift := by
  have hpos := twoTo_pos shift
  have hne : mantissa * twoTo shift ≠ 0 :=
    Nat.ne_of_gt (Nat.mul_pos (Nat.lt_of_lt_of_le (by decide) hlow) hpos)
  have hbelow : twoTo (52 + shift) ≤ mantissa * twoTo shift := by
    rw [twoTo_add]
    exact Nat.mul_le_mul_right _ hlow
  have habove : mantissa * twoTo shift < twoTo (52 + shift + 1) := by
    rw [Nat.add_right_comm, twoTo_add]
    exact (Nat.mul_lt_mul_right hpos).2 hhigh
  exact (Nat.log2_eq_iff hne).2 ⟨hbelow, habove⟩

/-- From 2^53 units on the code follows the power of two of the step. -/
theorem roundCode_of_step {mantissa shift : Nat} (hlow : 0x10000000000000 ≤ mantissa)
    (hhigh : mantissa < 0x20000000000000) (hshift : 0 < shift) :
    roundCode (mantissa * twoTo shift) 1
      = Nat.min (shift * 0x10000000000000 + mantissa) infinityCode := by
  have hstep : 2 ≤ twoTo shift := by
    obtain ⟨k, rfl⟩ := Nat.exists_eq_succ_of_ne_zero (Nat.ne_of_gt hshift)
    rw [Nat.succ_eq_add_one, twoTo_succ]
    have := twoTo_pos k
    omega
  have hge : 0x10000000000000 * 2 ≤ mantissa * twoTo shift := Nat.mul_le_mul hlow hstep
  unfold roundCode
  dsimp only
  rw [Nat.div_one, if_neg (by omega), log2_shifted hlow hhigh, Nat.add_sub_cancel_left,
    Nat.one_mul, divHalfEven_mul_self _ (twoTo_pos shift)]

/-- A count of units that a code stands for rounds to that code. -/
theorem roundCode_magnitudeOf {code : Nat} (h : code ≤ infinityCode) :
    roundCode (magnitudeOf code) 1 = code := by
  have hsplit := Nat.div_add_mod code 0x10000000000000
  have hfraction : code % 0x10000000000000 < 0x10000000000000 := Nat.mod_lt _ (by decide)
  unfold magnitudeOf
  dsimp only
  by_cases hzero : code / 0x10000000000000 = 0
  · rw [if_pos hzero, roundCode_of_lt (by omega)]
    rw [hzero, Nat.mul_zero, Nat.zero_add] at hsplit
    rw [hsplit]
    exact Nat.min_eq_left h
  · rw [if_neg hzero]
    by_cases hone : code / 0x10000000000000 = 1
    · rw [hone, Nat.sub_self, twoTo_zero, Nat.mul_one, roundCode_of_lt (by omega)]
      rw [hone, Nat.mul_one] at hsplit
      rw [hsplit]
      exact Nat.min_eq_left h
    · rw [roundCode_of_step (Nat.le_add_right _ _) (by omega) (by omega)]
      have hcode : (code / 0x10000000000000 - 1) * 0x10000000000000
          + (0x10000000000000 + code % 0x10000000000000) = code := by omega
      rw [hcode]
      exact Nat.min_eq_left h

/-- The nearest number to the exact value of a finite number is that number. -/
theorem ofRatio_magnitude (x : Binary64) : ofRatio x.negative x.magnitude 1 = x := by
  cases x with
  | mk negative code code_le => simp [ofRatio, magnitude, roundCode_magnitudeOf code_le]

/-- The bit pattern determines the number. -/
theorem ofBits?_toBits (x : Binary64) : ofBits? x.toBits = some x := by
  obtain ⟨negative, code, code_le⟩ := x
  have hlt : code < 0x8000000000000000 := Nat.lt_of_le_of_lt code_le (by decide)
  cases negative
  · simp only [toBits, Bool.false_eq_true, ↓reduceIte, ofBits?, Nat.mod_eq_of_lt hlt, code_le,
      ↓reduceDIte]
    simp
    omega
  · have hmod : (0x8000000000000000 + code) % 0x8000000000000000 = code := by omega
    simp only [toBits, ↓reduceIte, ofBits?, hmod, code_le, ↓reduceDIte]
    simp

end Binary64

end TriggerGraph
