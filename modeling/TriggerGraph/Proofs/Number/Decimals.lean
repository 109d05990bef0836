import Mathlib.Algebra.Order.Ring.Nat
import Mathlib.Tactic.Ring
import TriggerGraph.Number.Digits
import TriggerGraph.Number.Shortest
import TriggerGraph.Proofs.Number.Rounding

/-!
# Decimals that read back

The number nearest to a decimal depends on the value of the decimal alone: it is one ratio of
counts, rounded, and a ratio is not changed by a common factor.  So zeros may be moved between
the digits and the exponent, and the exponents that are settled without computing the power are
settled rightly.  The shortest decimal of a number is one of a few that read back, or has all
digits and reads back for that reason.

Main results:

- Theorem `roundCode_congr`: equal ratios round to one code.
- Theorem `ofDecimal_eq_ofRatio`: the number of a decimal is its value, rounded once.
- Theorem `ofDecimal_shift`: zeros may be moved between the digits and the exponent.
- Theorem `readsBack_shortest`: the shortest decimal of a number reads as that number.
- Theorem `Decimal.ofDecimal_chars`: the significant digits have the value of the decimal.
- Theorem `Digits.value_toDigits`: the digits of a whole number have its value.
-/

namespace TriggerGraph

/-! ## Digits -/

namespace Digits

/-- The value of digits is what the library makes of them. -/
theorem value_eq (digits : List Char) : value digits = Nat.ofDigitChars 10 digits 0 := by
  unfold value Nat.ofDigitChars
  simp only [Nat.mul_comm]

/-- The digits of a whole number have its value. -/
@[simp] theorem value_toDigits (n : Nat) : value (Nat.toDigits 10 n) = n := by
  rw [value_eq, Nat.ofDigitChars_ten_toDigits]

/-- The digits in front count as many tens as there are digits behind them. -/
theorem value_append_eq (front back : List Char) :
    value (front ++ back) = value front * tenTo back.length + value back := by
  rw [value_eq, value_eq, value_eq, Nat.ofDigitChars_append, Nat.ofDigitChars_eq_ofDigitChars_zero,
    Nat.mul_comm]
  rfl

@[simp] theorem value_replicate_zero (n : Nat) : value (List.replicate n '0') = 0 := by
  rw [value_eq, Nat.ofDigitChars_replicate_zero, Nat.mul_zero]

theorem isDigit_of_mem_toDigits {n : Nat} {c : Char} (h : c ∈ Nat.toDigits 10 n) :
    isDigit c = true :=
  Nat.isDigit_of_mem_toDigits (by decide) (by decide) h

/-- A positive whole number does not start with a zero. -/
theorem head?_toDigits_ne {n : Nat} (h : 0 < n) : (Nat.toDigits 10 n).head? ≠ some '0' := by
  induction n using Nat.strongRecOn with
  | _ n ih =>
      by_cases hsmall : n < 10
      · rw [Nat.toDigits_of_lt_base hsmall]
        simp only [List.head?_cons, ne_eq, Option.some.injEq, Nat.digitChar_eq_zero]
        omega
      · rw [Nat.toDigits_of_base_le (by decide) (by omega), List.head?_append,
          Option.or_of_isSome (by simp [Nat.toDigits_ne_nil])]
        exact ih (n / 10) (by omega) (by omega)

end Digits

/-! ## Ratios -/

namespace Binary64

theorem tenTo_pos (k : Nat) : 0 < tenTo k :=
  Nat.pow_pos (by decide)

theorem tenTo_add (j k : Nat) : tenTo (j + k) = tenTo j * tenTo k :=
  Nat.pow_add 10 j k

theorem tenTo_mono {j k : Nat} (h : j ≤ k) : tenTo j ≤ tenTo k :=
  Nat.pow_le_pow_right (by decide) h

/-- A ratio is rounded the same when it is expanded. -/
theorem divHalfEven_mul_right (num den : Nat) {c : Nat} (h : 0 < c) :
    divHalfEven (num * c) (den * c) = divHalfEven num den := by
  unfold divHalfEven
  dsimp only
  rw [Nat.mul_div_mul_right _ _ h, Nat.mul_mod_mul_right, ← Nat.mul_assoc]
  simp only [Nat.mul_lt_mul_right h]

theorem roundCode_mul_right (num den : Nat) {c : Nat} (h : 0 < c) :
    roundCode (num * c) (den * c) = roundCode num den := by
  unfold roundCode
  dsimp only
  rw [Nat.mul_div_mul_right _ _ h, Nat.mul_right_comm den c, divHalfEven_mul_right _ _ h]

/-- Equal ratios round to one code. -/
theorem roundCode_congr {num den other base : Nat} (hden : 0 < den) (hbase : 0 < base)
    (h : num * base = other * den) : roundCode num den = roundCode other base := by
  rw [← roundCode_mul_right num den hbase, ← roundCode_mul_right other base hden, h,
    Nat.mul_comm base]

/-- A ratio below one half of a unit rounds to zero. -/
theorem roundCode_eq_zero {num den : Nat} (h : 2 * num < den) : roundCode num den = 0 := by
  have hquotient : num / den = 0 := Nat.div_eq_of_lt (by omega)
  unfold roundCode divHalfEven
  simp [hquotient, Nat.mod_eq_of_lt (show num < den by omega), h]

/-- A count of 2^1024 ones or more rounds to an infinity. -/
theorem roundCode_eq_infinityCode {n : Nat} (h : twoTo 1024 * one ≤ n) :
    roundCode n 1 = infinityCode := by
  have hinfinity : magnitudeOf infinityCode = twoTo 1024 * one := by decide +kernel
  refine Nat.le_antisymm (roundCode_le n 1) ?_
  calc infinityCode = roundCode (magnitudeOf infinityCode) 1 :=
        (roundCode_magnitudeOf (Nat.le_refl _)).symm
    _ ≤ roundCode n 1 := roundCode_mono (hinfinity ▸ h)

/-! ## Decimals -/

@[simp] theorem negative_ofRatio (negative : Bool) (num den : Nat) :
    (ofRatio negative num den).negative = negative :=
  rfl

@[simp] theorem code_ofRatio (negative : Bool) (num den : Nat) :
    (ofRatio negative num den).code = roundCode num den :=
  rfl

/-- The number of a decimal is its value, rounded once. -/
theorem ofDecimal_eq_ofRatio (negative : Bool) (digits : Nat) (exponent : Int) :
    ofDecimal negative digits exponent =
      ofRatio negative (digits * tenTo exponent.toNat * one) (tenTo (-exponent).toNat) := by
  unfold ofDecimal
  split_ifs with hzero hlarge hsmall hsign
  · have hcode : roundCode (digits * tenTo exponent.toNat * one) (tenTo (-exponent).toNat) = 0 := by
      refine roundCode_eq_zero ?_
      simpa [hzero] using tenTo_pos _
    exact eq_of_code rfl hcode.symm
  · -- Already the least digit gives a count beyond the largest number.
    have hden : tenTo (-exponent).toNat = 1 := by
      rw [show (-exponent).toNat = 0 by omega]
      rfl
    have hcount : twoTo 1024 * one ≤ digits * tenTo exponent.toNat * one := by
      refine Nat.mul_le_mul_right one ?_
      calc twoTo 1024 ≤ tenTo 311 := by decide +kernel
        _ ≤ tenTo exponent.toNat := tenTo_mono (by omega)
        _ ≤ digits * tenTo exponent.toNat := Nat.le_mul_of_pos_left _ (by omega)
    rw [hden]
    exact eq_of_code rfl (roundCode_eq_infinityCode hcount).symm
  · -- Even twice the value stays below one unit.
    have hnum : digits * tenTo exponent.toNat * one = digits * one := by
      rw [show exponent.toNat = 0 by omega]
      exact congrArg (· * one) (Nat.mul_one digits)
    have hdigits : 2 * digits ≤ twoTo (digits.log2 + 2) := by
      rw [twoTo_succ]
      exact Nat.mul_le_mul_left 2 (Nat.le_of_lt Nat.lt_log2_self)
    have hsmallest : 2 * (digits * one) < tenTo (-exponent).toNat := by
      calc 2 * (digits * one) = 2 * digits * one := (Nat.mul_assoc 2 digits one).symm
        _ ≤ twoTo (digits.log2 + 2) * one := Nat.mul_le_mul_right one hdigits
        _ = twoTo digits.log2 * twoTo 1076 := by rw [one, ← twoTo_add, ← twoTo_add, Nat.add_assoc]
        _ < tenTo digits.log2 * tenTo 401 :=
          Nat.mul_lt_mul_of_le_of_lt (Nat.pow_le_pow_left (by decide) _) (by decide +kernel)
            (tenTo_pos _)
        _ = tenTo (digits.log2 + 401) := (tenTo_add _ _).symm
        _ ≤ tenTo (-exponent).toNat := tenTo_mono (by omega)
    rw [hnum]
    exact eq_of_code rfl (roundCode_eq_zero hsmallest).symm
  · rw [show (-exponent).toNat = 0 by omega]
    rfl
  · rw [show exponent.toNat = 0 by omega]
    exact congrArg (fun count => ofRatio negative (count * one) _) (Nat.mul_one digits).symm

/-- Both sides of a shift count the same, over any unit. -/
theorem shift_counts (digits zeros unit : Nat) (exponent : Int) :
    digits * tenTo zeros * tenTo (exponent - zeros).toNat * unit * tenTo (-exponent).toNat =
      digits * tenTo exponent.toNat * unit * tenTo (-(exponent - zeros)).toNat := by
  have hpowers : tenTo zeros * tenTo (exponent - zeros).toNat * tenTo (-exponent).toNat =
      tenTo exponent.toNat * tenTo (-(exponent - zeros)).toNat := by
    rw [← tenTo_add, ← tenTo_add, ← tenTo_add]
    exact congrArg tenTo (by omega)
  calc digits * tenTo zeros * tenTo (exponent - zeros).toNat * unit * tenTo (-exponent).toNat
      = digits * unit *
          (tenTo zeros * tenTo (exponent - zeros).toNat * tenTo (-exponent).toNat) := by ring
    _ = digits * tenTo exponent.toNat * unit * tenTo (-(exponent - zeros)).toNat := by
        rw [hpowers]
        ring

/-- Zeros may be moved between the digits and the exponent. -/
theorem ofDecimal_shift (negative : Bool) (digits zeros : Nat) (exponent : Int) :
    ofDecimal negative (digits * tenTo zeros) (exponent - zeros) =
      ofDecimal negative digits exponent := by
  rw [ofDecimal_eq_ofRatio, ofDecimal_eq_ofRatio]
  refine eq_of_code (by rw [negative_ofRatio, negative_ofRatio]) ?_
  rw [code_ofRatio, code_ofRatio]
  exact roundCode_congr (tenTo_pos _) (tenTo_pos _) (shift_counts digits zeros one exponent)

/-! ## The shortest decimal -/

variable {x : Binary64}

/-- A power of ten is a power of five and one of two. -/
theorem tenTo_eq (k : Nat) : tenTo k = Nat.pow 5 k * twoTo k :=
  Nat.mul_pow 5 2 k

/-- A count of 10^-k, all its digits kept, is a count of 2^-k. -/
theorem roundCode_exact (count k : Nat) :
    roundCode (count * Nat.pow 5 k * tenTo 0 * twoTo k) (tenTo k) = roundCode count 1 := by
  refine roundCode_congr (tenTo_pos k) Nat.one_pos ?_
  rw [tenTo_eq k, Nat.mul_one, show tenTo 0 = 1 from rfl, Nat.mul_one, Nat.mul_assoc]

/-- A decimal that is exactly a magnitude reads back as it. -/
theorem readsBack_of_exact {d : Decimal} {k : Nat} (hdigits : d.digits = x.magnitude * Nat.pow 5 k)
    (hexponent : d.exponent = -(k : Int)) (hone : one = twoTo k) : x.readsBack d = true := by
  have hcode : d.toBinary64.code = roundCode (x.magnitude * Nat.pow 5 k * tenTo 0 * twoTo k)
      (tenTo k) := by
    rw [Decimal.toBinary64, ofDecimal_eq_ofRatio, code_ofRatio, hdigits, hexponent, hone]
    simp only [Int.neg_neg, Int.toNat_natCast, Int.toNat_neg_natCast]
  exact decide_eq_true (hcode.trans ((roundCode_exact _ k).trans (roundCode_magnitudeOf x.code_le)))

/-- All digits of a number read back. -/
theorem readsBack_exactDecimal (x : Binary64) : x.readsBack x.exactDecimal = true :=
  readsBack_of_exact rfl rfl rfl

/-- The shortest decimal of a number reads back as it. -/
theorem readsBack_shortest (tie : Tie) (x : Binary64) : x.readsBack (x.shortest tie) = true := by
  unfold shortest
  cases hfound : (List.range 17).findSome? fun n => x.candidate? tie (n + 1) with
  | none => exact readsBack_exactDecimal x
  | some d =>
      rcases List.exists_of_findSome?_eq_some hfound with ⟨n, -, hcandidate⟩
      exact candidate?_reads_back hcandidate

/-- A decimal that reads back reads, behind the sign, as the number itself. -/
theorem ofDecimal_of_readsBack {d : Decimal} (h : x.readsBack d = true) :
    ofDecimal x.negative d.digits d.exponent = x := by
  have hread := of_decide_eq_true h
  rw [Decimal.toBinary64, ofDecimal_eq_ofRatio, code_ofRatio] at hread
  rw [ofDecimal_eq_ofRatio]
  exact eq_of_code (negative_ofRatio _ _ _) ((code_ofRatio _ _ _).trans hread)

/-- A decimal that reads back as anything but zero has a digit other than zero. -/
theorem digits_pos_of_readsBack {d : Decimal} (h : x.readsBack d = true)
    (hzero : x.isZero = false) : 0 < d.digits := by
  rw [Nat.pos_iff_ne_zero]
  intro hdigits
  have hcode := congrArg code (ofDecimal_of_readsBack h)
  rw [hdigits, ofDecimal, if_pos rfl] at hcode
  exact of_decide_eq_false hzero hcode.symm

end Binary64

/-! ## Significant digits -/

namespace Decimal

variable {d : Decimal}

/-- The significant digits with the closing zeros are all digits. -/
theorem chars_append (d : Decimal) :
    ∃ zeros, d.chars ++ List.replicate zeros '0' = Nat.toDigits 10 d.digits := by
  have hzeros : ((Nat.toDigits 10 d.digits).reverse.takeWhile (· == '0')) =
      List.replicate ((Nat.toDigits 10 d.digits).reverse.takeWhile (· == '0')).length '0' :=
    List.eq_replicate_of_mem fun c hc => by
      simpa using List.all_eq_true.1 List.all_takeWhile c hc
  refine ⟨((Nat.toDigits 10 d.digits).reverse.takeWhile (· == '0')).length, ?_⟩
  rw [← List.reverse_inj, List.reverse_append, List.reverse_replicate, ← hzeros, chars,
    List.reverse_reverse, List.takeWhile_append_dropWhile]

theorem isDigit_of_mem_chars {c : Char} (h : c ∈ d.chars) : Digits.isDigit c = true := by
  rcases chars_append d with ⟨zeros, hzeros⟩
  exact Digits.isDigit_of_mem_toDigits (hzeros ▸ List.mem_append_left _ h)

theorem chars_ne_nil (h : 0 < d.digits) : d.chars ≠ [] := by
  rcases chars_append d with ⟨zeros, hzeros⟩
  intro hnil
  have hvalue := Digits.value_toDigits d.digits
  rw [← hzeros, hnil, List.nil_append, Digits.value_replicate_zero] at hvalue
  exact Nat.ne_of_lt h hvalue

theorem head?_chars_ne (h : 0 < d.digits) : d.chars.head? ≠ some '0' := by
  rcases chars_append d with ⟨zeros, hzeros⟩
  have hhead := Digits.head?_toDigits_ne h
  rwa [← hzeros, List.head?_append, Option.or_of_isSome (by simp [chars_ne_nil h])] at hhead

/-- The significant digits, scaled by the exponent of the last of them, have the value of the
decimal. -/
theorem ofDecimal_chars (negative : Bool) (h : 0 < d.digits) :
    Binary64.ofDecimal negative (Digits.value d.chars)
        (d.scientificExponent - (d.chars.length - 1 : Nat)) =
      Binary64.ofDecimal negative d.digits d.exponent := by
  rcases chars_append d with ⟨zeros, hzeros⟩
  have hlength := congrArg List.length hzeros
  have hvalue := congrArg Digits.value hzeros
  have hpos := List.length_pos_iff.2 (chars_ne_nil h)
  rw [Digits.value_append_eq, Digits.value_replicate_zero, Digits.value_toDigits, Nat.add_zero,
    List.length_replicate] at hvalue
  rw [List.length_append, List.length_replicate] at hlength
  have hexponent : d.scientificExponent - (d.chars.length - 1 : Nat) - zeros = d.exponent := by
    rw [scientificExponent, ← hlength]
    omega
  rw [← Binary64.ofDecimal_shift negative _ zeros, hvalue, hexponent]

end Decimal

end TriggerGraph
