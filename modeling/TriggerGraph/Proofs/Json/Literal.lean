import TriggerGraph.Json.Reader
import TriggerGraph.Number.Text
import TriggerGraph.Proofs.Number.Decimals

/-!
# Numbers as written and as read

A literal is spelled by its sign, its digits, a fraction and an exponent.  The scanner takes a
well-formed literal off the front of a text, and exactly it, when what follows cannot be a part
of a number.  The text of a finite number spells such a literal, whichever layout it has, and the
literal denotes that number, so what is written is read back.

Main results:

- Theorem `scanNumber_spelled`: a literal is scanned off the front of a text.
- Theorem `exists_literal_of_isFinite`: the text of a finite number is written by a literal of
  that number.
-/

namespace TriggerGraph

namespace Json

open Digits (isDigit)

/-! ## Spelling -/

/-- Digits, at least one. -/
structure IsDigits (digits : List Char) : Prop where
  nonempty : digits ≠ []
  all : ∀ c ∈ digits, isDigit c = true

namespace Literal

/-- The fraction behind its point. -/
def fractionChars : Option (List Char) → List Char
  | none => []
  | some digits => '.' :: digits

/-- The exponent behind its letter and its sign. -/
def exponentChars : Option (Bool × List Char) → List Char
  | none => []
  | some (negative, digits) => 'e' :: (if negative then '-' else '+') :: digits

/-- The literal without its sign. -/
def magnitudeChars (l : Literal) : List Char :=
  l.whole ++ (fractionChars l.fraction ++ exponentChars l.exponent)

/-- The literal as it is written. -/
def chars (l : Literal) : List Char :=
  if l.negative then '-' :: l.magnitudeChars else l.magnitudeChars

/-- Digits in every place, and no leading zero. -/
structure WellFormed (l : Literal) : Prop where
  whole : IsDigits l.whole
  zero : l.whole.head? = some '0' → l.whole = ['0']
  fraction : ∀ digits ∈ l.fraction, IsDigits digits
  exponent : ∀ scaled ∈ l.exponent, IsDigits scaled.2

end Literal

/-- A text at whose front no number goes on. -/
def EndsNumber (rest : List Char) : Prop :=
  ∀ c ∈ rest.head?, isDigit c = false ∧ c ≠ '.' ∧ c ≠ 'e' ∧ c ≠ 'E'

/-! ## Scanning -/

variable {digits rest : List Char} {l : Literal}

/-- Digits are scanned up to the first character that is none. -/
theorem scanDigits_append (hdigits : IsDigits digits)
    (hrest : ∀ c ∈ rest.head?, isDigit c = false) :
    scanDigits (digits ++ rest) = some (digits, rest) := by
  have htake : rest.takeWhile isDigit = [] := by
    cases rest with
    | nil => rfl
    | cons c more => simp [hrest c rfl]
  have hdrop : rest.dropWhile isDigit = rest := by
    cases rest with
    | nil => rfl
    | cons c more => simp [hrest c rfl]
  have hnonempty : digits.isEmpty = false := by simpa using hdigits.nonempty
  rw [scanDigits, List.takeWhile_append_of_pos hdigits.all,
    List.dropWhile_append_of_pos hdigits.all, htake, hdrop, List.append_nil, hnonempty]
  rfl

/-- The whole part of a literal is scanned up to what is no digit. -/
theorem scanWhole_append (hdigits : IsDigits digits)
    (hzero : digits.head? = some '0' → digits = ['0'])
    (hrest : ∀ c ∈ rest.head?, isDigit c = false) :
    scanWhole (digits ++ rest) = some (digits, rest) := by
  by_cases hhead : digits.head? = some '0'
  · rw [hzero hhead]
    cases rest with
    | nil => rfl
    | cons c more => simp [scanWhole, hrest c rfl]
  · rw [← scanDigits_append hdigits hrest]
    cases digits with
    | nil => exact absurd rfl hdigits.nonempty
    | cons first more =>
        have hfirst : first ≠ '0' := fun heq => hhead (congrArg some heq)
        rw [List.cons_append, scanWhole.eq_def]
        split
        · rename_i hcons
          exact absurd (List.cons.inj hcons).1 hfirst
        · rfl

/-- The fraction of a literal is scanned, if there is one. -/
theorem scanFraction_append {fraction : Option (List Char)}
    (hfraction : ∀ digits ∈ fraction, IsDigits digits)
    (hrest : ∀ c ∈ rest.head?, isDigit c = false ∧ c ≠ '.') :
    scanFraction (Literal.fractionChars fraction ++ rest) = some (fraction, rest) := by
  cases fraction with
  | none =>
      rw [Literal.fractionChars, List.nil_append, scanFraction.eq_def]
      split
      · exact absurd rfl (hrest '.' rfl).2
      · rfl
  | some digits =>
      rw [Literal.fractionChars, List.cons_append, scanFraction,
        scanDigits_append (hfraction digits rfl) fun c hc => (hrest c hc).1]
      rfl

/-- The exponent of a literal is scanned, if there is one. -/
theorem scanExponent_append {exponent : Option (Bool × List Char)}
    (hexponent : ∀ scaled ∈ exponent, IsDigits scaled.2) (hrest : EndsNumber rest) :
    scanExponent (Literal.exponentChars exponent ++ rest) = some (exponent, rest) := by
  cases exponent with
  | none =>
      cases rest with
      | nil => rfl
      | cons c more =>
          rcases hrest c rfl with ⟨-, -, hlower, hupper⟩
          simp [Literal.exponentChars, scanExponent.eq_def, hlower, hupper]
  | some scaled =>
      rcases scaled with ⟨negative, digits⟩
      have hscan := scanDigits_append (hexponent _ rfl) fun c hc => (hrest c hc).1
      cases negative <;> simp [Literal.exponentChars, scanExponent, hscan]

/-- What follows the whole part is a point, the letter of an exponent or the end. -/
theorem head?_exponentChars_append (exponent : Option (Bool × List Char))
    (hrest : EndsNumber rest) :
    ∀ c ∈ (Literal.exponentChars exponent ++ rest).head?, isDigit c = false ∧ c ≠ '.' := by
  intro c hc
  cases exponent with
  | none => exact ⟨(hrest c hc).1, (hrest c hc).2.1⟩
  | some scaled =>
      cases hc
      decide

theorem head?_fractionChars_append (fraction : Option (List Char))
    (hrest : ∀ c ∈ rest.head?, isDigit c = false) :
    ∀ c ∈ (Literal.fractionChars fraction ++ rest).head?, isDigit c = false := by
  intro c hc
  cases fraction with
  | none => exact hrest c hc
  | some digits =>
      cases hc
      decide

/-- The whole part, the fraction and the exponent are scanned one after the other. -/
theorem scanMagnitude_append (hl : l.WellFormed) (hrest : EndsNumber rest) :
    scanMagnitude l.negative (l.magnitudeChars ++ rest) = some (l, rest) := by
  have hscaled := head?_exponentChars_append l.exponent hrest
  have hpoint := head?_fractionChars_append l.fraction fun c hc => (hscaled c hc).1
  rw [scanMagnitude, Literal.magnitudeChars, List.append_assoc, List.append_assoc,
    scanWhole_append hl.whole hl.zero hpoint]
  simp only [bind, Option.bind, scanFraction_append hl.fraction hscaled,
    scanExponent_append hl.exponent hrest]
  rfl

/-- A magnitude starts with a digit, which is no sign. -/
theorem magnitudeChars_append_ne (hl : l.WellFormed) (rest tail : List Char) :
    l.magnitudeChars ++ rest ≠ '-' :: tail := by
  intro hcons
  cases hwhole : l.whole with
  | nil => exact hl.whole.nonempty hwhole
  | cons first more =>
      have hfirst := hl.whole.all first (by simp [hwhole])
      rw [Literal.magnitudeChars, hwhole, List.cons_append, List.cons_append,
        List.cons.injEq] at hcons
      rw [hcons.1] at hfirst
      exact absurd hfirst (by decide)

/-- A literal is scanned off the front of a text. -/
theorem scanNumber_spelled (hl : l.WellFormed) (hrest : EndsNumber rest) :
    scanNumber (l.chars ++ rest) = some (l, rest) := by
  have hscan := scanMagnitude_append hl hrest
  cases hsign : l.negative with
  | true =>
      rw [hsign] at hscan
      rw [Literal.chars, if_pos hsign, List.cons_append, scanNumber, hscan]
  | false =>
      rw [hsign] at hscan
      rw [Literal.chars, if_neg (by simp [hsign]), ← hscan]
      rw [scanNumber.eq_def]
      split
      · rename_i tail hcons
        exact absurd hcons (magnitudeChars_append_ne hl rest tail)
      · rfl

/-! ## The texts of floating-point numbers -/

/-- A literal of a floating-point number: it is written as `text` behind the sign and reads as the
number. -/
structure Literal.Renders (l : Literal) (x : Binary64) (text : List Char) : Prop where
  wellFormed : l.WellFormed
  negative : l.negative = x.negative
  text : l.magnitudeChars = text
  isPlain : l.isPlain = false
  value : l.toBinary64 = x

theorem IsDigits.append_left {digits zeros : List Char} (h : IsDigits digits)
    (hzeros : ∀ c ∈ zeros, isDigit c = true) : IsDigits (digits ++ zeros) :=
  ⟨by simp [h.nonempty], List.forall_mem_append.2 ⟨h.all, hzeros⟩⟩

theorem IsDigits.append_right {digits zeros : List Char} (h : IsDigits digits)
    (hzeros : ∀ c ∈ zeros, isDigit c = true) : IsDigits (zeros ++ digits) :=
  ⟨by simp [h.nonempty], List.forall_mem_append.2 ⟨hzeros, h.all⟩⟩

theorem isDigit_of_mem_zeros (zeros : Nat) : ∀ c ∈ List.replicate zeros '0', isDigit c = true := by
  intro c hc
  rw [List.eq_of_mem_replicate hc]
  decide

theorem isDigits_toDigits (n : Nat) : IsDigits (Nat.toDigits 10 n) :=
  ⟨Nat.toDigits_ne_nil, fun _ hc => Digits.isDigit_of_mem_toDigits hc⟩

theorem isDigits_zero : IsDigits ['0'] :=
  ⟨List.cons_ne_nil _ _, List.forall_mem_singleton.2 rfl⟩

/-- Zero has a literal. -/
theorem exists_renders_zero {x : Binary64} (h : x.isZero = true) :
    ∃ l : Literal, l.Renders x ['0', '.', '0'] := by
  have hcode : x.code = 0 := of_decide_eq_true h
  refine ⟨⟨x.negative, ['0'], some ['0'], none⟩, ⟨isDigits_zero, fun _ => rfl, ?_, ?_⟩, rfl, rfl,
    rfl, ?_⟩
  · rintro digits ⟨⟩
    exact isDigits_zero
  · rintro scaled ⟨⟩
  · exact Binary64.eq_of_code rfl hcode.symm

variable {x : Binary64} {d : Decimal}

/-- The significant digits between zeros read as the number, if the exponent makes up for the
zeros behind them. -/
theorem ofDecimal_padded (hread : x.readsBack d = true) (hpos : 0 < d.digits) {digits : List Char}
    (front back : Nat) {exponent : Int}
    (hdigits : digits = List.replicate front '0' ++ (d.chars ++ List.replicate back '0'))
    (hexponent : exponent = d.scientificExponent - (d.chars.length - 1 : Nat) - back) :
    Binary64.ofDecimal x.negative (Digits.value digits) exponent = x := by
  have hvalue : Digits.value digits = Digits.value d.chars * tenTo back := by
    rw [hdigits, Digits.value_append_eq, Digits.value_append_eq, Digits.value_replicate_zero,
      Digits.value_replicate_zero, Nat.zero_mul, Nat.zero_add, Nat.add_zero, List.length_replicate]
  rw [hvalue, hexponent, Binary64.ofDecimal_shift, Decimal.ofDecimal_chars x.negative hpos]
  exact Binary64.ofDecimal_of_readsBack hread

theorem isDigits_chars (hpos : 0 < d.digits) : IsDigits d.chars :=
  ⟨Decimal.chars_ne_nil hpos, fun _ hc => Decimal.isDigit_of_mem_chars hc⟩

/-- Digits on both sides of a point are a literal, if they are the significant digits between
zeros. -/
theorem renders_positional (hread : x.readsBack d = true) (hpos : 0 < d.digits)
    {whole fraction : List Char} (front back : Nat) (hwhole : IsDigits whole)
    (hzero : whole.head? = some '0' → whole = ['0']) (hfraction : IsDigits fraction)
    (hdigits : whole ++ fraction = List.replicate front '0' ++ (d.chars ++ List.replicate back '0'))
    (hexponent : 0 - (fraction.length : Int) =
      d.scientificExponent - (d.chars.length - 1 : Nat) - back) :
    (Literal.mk x.negative whole (some fraction) none).Renders x (whole ++ '.' :: fraction) where
  wellFormed := by
    refine ⟨hwhole, hzero, ?_, ?_⟩
    · rintro digits ⟨⟩
      exact hfraction
    · rintro scaled ⟨⟩
  negative := rfl
  text := by simp [Literal.magnitudeChars, Literal.fractionChars, Literal.exponentChars]
  isPlain := rfl
  value := ofDecimal_padded hread hpos front back hdigits hexponent

/-- Each layout of positional notation has a literal, with a fraction in any case. -/
theorem exists_renders_positional (hread : x.readsBack d = true) (hpos : 0 < d.digits) :
    ∃ l : Literal, l.Renders x (d.positional ['.', '0']) := by
  have hchars := isDigits_chars hpos
  have hhead := Decimal.head?_chars_ne hpos
  have hlength := List.length_pos_iff.2 hchars.nonempty
  unfold Decimal.positional
  dsimp only
  split_ifs with hsmall hlarge
  · -- Below one, zeros stand between the point and the digits.
    refine ⟨_, renders_positional hread hpos ((-(d.scientificExponent + 1)).toNat + 1) 0
      isDigits_zero (fun _ => rfl) (hchars.append_right (isDigit_of_mem_zeros _)) ?_ ?_⟩
    · simp [List.replicate_succ]
    · simp
      omega
  · -- Zeros fill the places up to the point, and one stands behind it.
    have hfilled := hchars.append_left
      (isDigit_of_mem_zeros ((d.scientificExponent + 1).toNat - d.chars.length))
    refine ⟨_, renders_positional hread hpos 0
      ((d.scientificExponent + 1).toNat - d.chars.length + 1) hfilled ?_ isDigits_zero ?_ ?_⟩
    · intro hzero
      rw [List.head?_append, Option.or_of_isSome (by simp [hchars.nonempty])] at hzero
      exact absurd hzero hhead
    · simp [List.replicate_succ']
    · simp
      omega
  · -- The point stands among the digits.
    have htake : IsDigits (d.chars.take (d.scientificExponent + 1).toNat) :=
      ⟨by simp [hchars.nonempty]; omega, fun c hc => hchars.all c (List.mem_of_mem_take hc)⟩
    have hdrop : IsDigits (d.chars.drop (d.scientificExponent + 1).toNat) :=
      ⟨by simp; omega, fun c hc => hchars.all c (List.mem_of_mem_drop hc)⟩
    refine ⟨_, renders_positional hread hpos 0 0 htake ?_ hdrop ?_ ?_⟩
    · intro hzero
      rw [List.head?_take, if_neg (by omega)] at hzero
      exact absurd hzero hhead
    · simp
    · simp
      omega

/-- An exponent behind its sign is read as it is. -/
theorem toBinary64_of_exponent (negative : Bool) (whole : List Char) (fraction : Option (List Char))
    (exponent : Int) :
    (Literal.mk negative whole fraction
        (some (decide (exponent < 0), Nat.toDigits 10 exponent.natAbs))).toBinary64 =
      Binary64.ofDecimal negative (Digits.value (whole ++ fraction.getD []))
        (exponent - (fraction.getD []).length) := by
  unfold Literal.toBinary64
  by_cases hsign : exponent < 0
  · have habs : -(exponent.natAbs : Int) = exponent := by omega
    simp only [hsign, decide_true, Digits.value_toDigits, habs]
  · have habs : (exponent.natAbs : Int) = exponent := by omega
    simp only [hsign, decide_false, Digits.value_toDigits, habs]

/-- A digit, the digits behind the point and an exponent are a literal, if they are the
significant digits. -/
theorem renders_scientific (hread : x.readsBack d = true) (hpos : 0 < d.digits) {first : Char}
    (fraction : Option (List Char)) (hfraction : ∀ digits ∈ fraction, IsDigits digits)
    (hdigits : d.chars = first :: fraction.getD []) :
    (Literal.mk x.negative [first] fraction (some (decide (d.scientificExponent < 0),
        Nat.toDigits 10 d.scientificExponent.natAbs))).Renders x
      (first :: (Literal.fractionChars fraction ++
        'e' :: (if d.scientificExponent < 0 then '-' else '+') ::
          Nat.toDigits 10 d.scientificExponent.natAbs)) where
  wellFormed := by
    refine ⟨⟨List.cons_ne_nil _ _, ?_⟩, ?_, hfraction, ?_⟩
    · intro c hc
      refine Decimal.isDigit_of_mem_chars (d := d) ?_
      rw [hdigits, List.mem_singleton.1 hc]
      exact List.mem_cons_self
    · intro hzero
      rw [Option.some.inj hzero]
    · rintro scaled ⟨⟩
      exact isDigits_toDigits _
  negative := rfl
  text := by simp [Literal.magnitudeChars, Literal.exponentChars]
  isPlain := by simp [Literal.isPlain]
  value := by
    rw [toBinary64_of_exponent]
    refine ofDecimal_padded hread hpos 0 0 (by simp [hdigits]) ?_
    simp [hdigits]

/-- Scientific notation has a literal. -/
theorem exists_renders_scientific (hread : x.readsBack d = true) (hpos : 0 < d.digits) :
    ∃ l : Literal, l.Renders x d.scientific := by
  have hchars := isDigits_chars hpos
  rw [Decimal.scientific]
  cases hcase : d.chars with
  | nil => exact absurd hcase hchars.nonempty
  | cons first more =>
      cases more with
      | nil => exact ⟨_, renders_scientific hread hpos none (by rintro _ ⟨⟩) hcase⟩
      | cons next rest =>
          have hfraction : IsDigits (next :: rest) :=
            ⟨List.cons_ne_nil _ _, fun c hc => hchars.all c (hcase ▸ List.mem_cons_of_mem _ hc)⟩
          refine ⟨_, renders_scientific hread hpos (some (next :: rest)) ?_ hcase⟩
          rintro digits ⟨⟩
          exact hfraction

/-- A finite floating-point number has a literal, whatever its layout. -/
theorem exists_renders_documentText (hfinite : x.isFinite = true) :
    ∃ l : Literal, l.chars = x.documentText ∧ l.Renders x l.magnitudeChars := by
  have hsigned : ∀ text : List Char, (∃ l : Literal, l.Renders x text) →
      ∃ l : Literal, l.chars = x.signed text ∧ l.Renders x l.magnitudeChars := by
    rintro text ⟨l, hl⟩
    refine ⟨l, ?_, hl.text.symm ▸ hl⟩
    rw [Literal.chars, Binary64.signed, hl.negative, hl.text]
  unfold Binary64.documentText
  rw [hfinite]
  simp only [Bool.not_true, Bool.false_eq_true, ↓reduceIte]
  split_ifs with hzero hpositional
  · exact hsigned _ (exists_renders_zero hzero)
  · have hread := Binary64.readsBack_shortest .even x
    exact hsigned _ (exists_renders_positional hread
      (Binary64.digits_pos_of_readsBack hread (by simpa using hzero)))
  · have hread := Binary64.readsBack_shortest .even x
    exact hsigned _ (exists_renders_scientific hread
      (Binary64.digits_pos_of_readsBack hread (by simpa using hzero)))

/-! ## Numbers of both kinds -/

/-- A printed whole number is a literal. -/
theorem wellFormed_toDigits (negative : Bool) (n : Nat) :
    (Literal.mk negative (Nat.toDigits 10 n) none none).WellFormed := by
  refine ⟨isDigits_toDigits n, fun hzero => ?_, by rintro _ ⟨⟩, by rintro _ ⟨⟩⟩
  rcases Nat.eq_zero_or_pos n with rfl | hpos
  · rfl
  · exact absurd hzero (Digits.head?_toDigits_ne hpos)

/-- A whole number has a literal without fraction and exponent. -/
theorem exists_plain_literal (i : WordInt) :
    ∃ l : Literal, l.WellFormed ∧ l.chars = decimalText i.val ∧ l.number? = some (.int i) := by
  refine ⟨⟨decide (i.val < 0), Nat.toDigits 10 i.val.natAbs, none, none⟩, wellFormed_toDigits _ _,
    ?_, ?_⟩
  · simp [Literal.chars, Literal.magnitudeChars, Literal.fractionChars, Literal.exponentChars,
      decimalText]
  · have hwhole : (if i.val < 0 then -(i.val.natAbs : Int) else i.val.natAbs) = i.val := by
      split_ifs <;> omega
    have hzero : 0 ≤ i.val ∨ ¬ i.val = 0 := by omega
    simp only [Literal.number?, Literal.isPlain, Option.isNone_none, Bool.and_true,
      Digits.value_toDigits, decide_eq_true_eq, hwhole, WordInt.ofInt?_val]
    simp [hzero]

/-- The text of a finite number is written by a literal of that number. -/
theorem exists_literal_of_isFinite {n : Number} (h : n.isFinite = true) :
    ∃ l : Literal, l.WellFormed ∧ l.chars = n.documentText ∧ l.number? = some n := by
  cases n with
  | int i => exact exists_plain_literal i
  | float x =>
      rcases exists_renders_documentText h with ⟨l, hchars, hl⟩
      refine ⟨l, hl.wellFormed, hchars, ?_⟩
      have hfinite : x.isFinite = true := h
      simp [Literal.number?, hl.isPlain, hl.value, hfinite]

/-- What a number begins with: a sign or a digit. -/
def StartsNumber (c : Char) : Prop := c = '-' ∨ isDigit c = true

theorem StartsNumber.ne {c other : Char} (hc : StartsNumber c)
    (hother : other ≠ '-' ∧ isDigit other = false) : c ≠ other := by
  rintro rfl
  rcases hc with hsign | hdigit
  · exact hother.1 hsign
  · exact Bool.false_ne_true (hother.2.symm.trans hdigit)

/-- A literal has a first character, which can start a number. -/
theorem Literal.WellFormed.exists_startsNumber (hl : l.WellFormed) :
    ∃ c more, l.chars = c :: more ∧ StartsNumber c := by
  cases hsign : l.negative with
  | true => exact ⟨'-', l.magnitudeChars, if_pos hsign, .inl rfl⟩
  | false =>
      cases hwhole : l.whole with
      | nil => exact absurd hwhole hl.whole.nonempty
      | cons first more =>
          have hchars : l.chars = first :: (more ++
              (Literal.fractionChars l.fraction ++ Literal.exponentChars l.exponent)) := by
            rw [Literal.chars, if_neg (by simp [hsign]), Literal.magnitudeChars, hwhole,
              List.cons_append]
          exact ⟨first, _, hchars, .inr (hl.whole.all first (by simp [hwhole]))⟩

end Json

end TriggerGraph
