import TriggerGraph.Number.Text

/-!
# Numbers as values hold them

A value holds a whole number in a signed word, or in an unsigned one if no signed
word has room for it, and any other number in floating point.  The number of a
document is asked for in these three forms, one after the other, and the first that
it has is held; so nothing is rounded on the way.  Numbers are compared once they
are normalized, when a whole floating-point number that fits a word has become that
word.

Main results:

- Theorems `Number.number_held` and `MachineNumber.held_number`: a number is held
  without loss, and what is held is held the same again.
- Theorem `MachineNumber.normalized_normalized`: normalizing twice changes nothing
  more.
-/

namespace TriggerGraph

/-! ## Whole numbers in words -/

/-- A whole number in a signed word, or above all of those in an unsigned one. -/
inductive MachineWord where
  | signed (i : Int64)
  | unsigned (u : UInt64) (large : 0x7fffffffffffffff < u)
deriving DecidableEq

namespace MachineWord

/-- The whole number in the word. -/
def val : MachineWord → Int
  | signed i => i.toInt
  | unsigned u _ => u.toNat

/-- The same number as a word of a document. -/
def wordInt : MachineWord → WordInt
  | signed i => .ofInt64 i
  | unsigned u _ => .ofUInt64 u

/-- Above the greatest signed word lie the numbers from 2^63 on. -/
theorem large_iff {u : UInt64} :
    0x7fffffffffffffff < u ↔ 0x8000000000000000 ≤ (u.toNat : Int) := by
  have hmax : (0x7fffffffffffffff : UInt64).toNat = 2 ^ 63 - 1 := by decide
  rw [UInt64.lt_iff_toNat_lt, hmax]
  omega

theorem lower (w : MachineWord) : -0x8000000000000000 ≤ w.val := by
  cases w with
  | signed i => exact i.le_toInt
  | unsigned u large =>
      rw [val]
      omega

theorem upper (w : MachineWord) : w.val < 0x10000000000000000 := by
  cases w with
  | signed i =>
      have := i.toInt_lt
      rw [val]
      omega
  | unsigned u large =>
      have := u.toNat_lt
      rw [val]
      omega

/-- The word of a whole number in range, a signed one if it fits. -/
def ofInt? (i : Int) : Option MachineWord :=
  if hsigned : -0x8000000000000000 ≤ i ∧ i < 0x8000000000000000 then
    some (.signed (Int64.ofInt i))
  else if hunsigned : 0 ≤ i ∧ i < 0x10000000000000000 then
    some (.unsigned (UInt64.ofNat i.toNat)
      (large_iff.2 (by rw [UInt64.toNat_ofNat']; omega)))
  else none

@[simp] theorem val_wordInt (w : MachineWord) : w.wordInt.val = w.val := by
  cases w <;> rfl

/-- The word of a number holds that number. -/
theorem val_of_ofInt? {i : Int} {w : MachineWord} (h : ofInt? i = some w) : w.val = i := by
  unfold ofInt? at h
  split at h
  · rename_i hsigned
    cases h
    exact Int64.toInt_ofInt_of_le hsigned.1 hsigned.2
  · split at h
    · rename_i hunsigned
      cases h
      rw [val, UInt64.toNat_ofNat']
      omega
    · cases h

/-- A word is the word of its number. -/
@[simp] theorem ofInt?_val (w : MachineWord) : ofInt? w.val = some w := by
  cases w with
  | signed i =>
      rw [ofInt?, dif_pos ⟨i.le_toInt, i.toInt_lt⟩]
      simp [val]
  | unsigned u large =>
      have hlarge := large_iff.1 large
      have hupper := u.toNat_lt
      rw [ofInt?, dif_neg (by rw [val]; omega), dif_pos (by rw [val]; omega)]
      simp [val]

/-- A word is known by its number. -/
theorem val_inj {v w : MachineWord} (h : v.val = w.val) : v = w := by
  have hword := ofInt?_val v
  rw [h, ofInt?_val] at hword
  exact (Option.some.inj hword).symm

end MachineWord

/-! ## Numbers -/

/-- A number of a value. -/
inductive MachineNumber where
  | word (w : MachineWord)
  | float (x : Binary64)
deriving DecidableEq

/-- A number of a document as a value holds it: in a signed word if it fits, else in an
unsigned word if it fits, and else in floating point. -/
def Number.held (n : Number) : MachineNumber :=
  match hsigned : n.signed? with
  | some i => .word (.signed i)
  | none =>
    match hunsigned : n.unsigned? with
    | some u => .word (.unsigned u (large_of_signed? hsigned hunsigned))
    | none => .float n.toBinary64

namespace MachineNumber

/-- The number for a document. -/
def number : MachineNumber → Number
  | .word w => .int w.wordInt
  | .float x => .float x

/-- The binary64 number nearest to the value. -/
def toBinary64 : MachineNumber → Binary64
  | .word w => Binary64.ofInt w.val
  | .float x => x

/-- The exact value, in units of 2^-1074. -/
def units : MachineNumber → Int
  | .word w => w.val * Binary64.one
  | .float x => x.units

/-- Whether the number is no infinity. -/
def isFinite : MachineNumber → Bool
  | .word _ => true
  | .float x => x.isFinite

/-- Equality of two numbers of one kind: floating-point numbers by value, so
that both zeros are equal. -/
def equal : MachineNumber → MachineNumber → Bool
  | .word v, .word w => v = w
  | .float x, .float y => x.equal y
  | _, _ => false

/-- A floating-point number that is whole and fits a word becomes that word. -/
def normalized : MachineNumber → MachineNumber
  | .word w => .word w
  | .float x =>
    if x.isWhole then
      match MachineWord.ofInt? x.whole with
      | some w => .word w
      | none => .float x
    else .float x

/-- The display text of a number. -/
def displayText : MachineNumber → List Char
  | .word w => decimalText w.val
  | .float x => x.displayText

/-- Normalizing twice changes nothing more. -/
@[simp] theorem normalized_normalized (n : MachineNumber) :
    n.normalized.normalized = n.normalized := by
  cases n with
  | word w => rfl
  | float x =>
      unfold normalized
      by_cases h : x.isWhole = true
      · cases hword : MachineWord.ofInt? x.whole with
        | none => simp [h, hword]
        | some w => simp [h, hword]
      · simp [h]

/-! ## There and back -/

@[simp] theorem isFinite_number (n : MachineNumber) : n.number.isFinite = n.isFinite := by
  cases n <;> rfl

/-- A number of a value is known by its number for a document. -/
theorem number_inj {m n : MachineNumber} (h : m.number = n.number) : m = n := by
  cases m with
  | word v =>
      cases n with
      | word w =>
          have hval : v.val = w.val := by
            rw [← v.val_wordInt, ← w.val_wordInt, Number.int.inj h]
          rw [MachineWord.val_inj hval]
      | float y => cases h
  | float x =>
      cases n with
      | word w => cases h
      | float y => rw [Number.float.inj h]

end MachineNumber

/-- A number is held without loss. -/
@[simp] theorem Number.number_held (n : Number) : n.held.number = n := by
  unfold held
  split
  · exact int_of_signed? ‹_›
  · split
    · exact int_of_unsigned? ‹_›
    · exact toBinary64_of_unsigned? ‹_› ‹_›

@[simp] theorem Number.isFinite_held (n : Number) : n.held.isFinite = n.isFinite := by
  rw [← MachineNumber.isFinite_number, number_held]

/-- What is held is held the same again. -/
@[simp] theorem MachineNumber.held_number (n : MachineNumber) : n.number.held = n :=
  number_inj n.number.number_held

end TriggerGraph
