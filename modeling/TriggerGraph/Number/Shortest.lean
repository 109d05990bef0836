import TriggerGraph.Number.Binary64

/-!
# The fewest decimal digits that read back

A finite binary64 number is written with the fewest significant digits whose
value rounds to it again.  For each count of digits the two neighbours of the
exact value on that decimal grid are tried; if both read back, the nearer one is
taken, and a rule for ties decides between two that are equally near.

Main results:

- Theorem `candidate?_reads_back`: a chosen decimal rounds to the number it was
  chosen for.
-/

namespace TriggerGraph

/-- A decimal `digits * 10 ^ exponent`. -/
structure Decimal where
  digits : Nat
  exponent : Int
deriving DecidableEq

/-- Which of two equally near decimals is written. -/
inductive Tie where
  | even
  | up
deriving DecidableEq

namespace Decimal

/-- The number that the decimal reads as. -/
def toBinary64 (d : Decimal) : Binary64 := Binary64.ofDecimal false d.digits d.exponent

/-- The significant digits as characters, without closing zeros. -/
def chars (d : Decimal) : List Char :=
  ((Nat.toDigits 10 d.digits).reverse.dropWhile (· == '0')).reverse

/-- The power of ten of the first digit. -/
def scientificExponent (d : Decimal) : Int :=
  d.exponent + ((Nat.toDigits 10 d.digits).length - 1 : Nat)

end Decimal

/-- The two neighbours of a value on a decimal grid, and on which side of their
middle the value lies. -/
structure Bracket where
  below : Decimal
  above : Decimal
  side : Ordering
deriving DecidableEq

namespace Bracket

/-- The nearer neighbour. -/
def nearest (tie : Tie) (b : Bracket) : Decimal :=
  match b.side, tie with
  | .lt, _ => b.below
  | .gt, _ => b.above
  | .eq, .up => b.above
  | .eq, .even => if b.below.digits % 2 = 0 then b.below else b.above

/-- The nearer of the neighbours that `accept` admits. -/
def choose? (tie : Tie) (accept : Decimal → Bool) (b : Bracket) : Option Decimal :=
  match accept b.below, accept b.above with
  | true, true => some (b.nearest tie)
  | true, false => some b.below
  | false, true => some b.above
  | false, false => none

/-- The nearest is one of the two. -/
theorem nearest_eq_or (tie : Tie) (b : Bracket) :
    b.nearest tie = b.below ∨ b.nearest tie = b.above := by
  unfold nearest
  split
  · exact .inl rfl
  · exact .inr rfl
  · exact .inr rfl
  · split
    · exact .inl rfl
    · exact .inr rfl

/-- A chosen decimal is an admitted one. -/
theorem accept_of_choose? {tie : Tie} {accept : Decimal → Bool} {b : Bracket} {d : Decimal}
    (h : b.choose? tie accept = some d) : accept d = true := by
  unfold choose? at h
  split at h
  · rename_i hbelow habove
    rcases nearest_eq_or tie b with heq | heq
    · rw [← Option.some.inj h, heq, hbelow]
    · rw [← Option.some.inj h, heq, habove]
  · rename_i hbelow _
    rw [← Option.some.inj h, hbelow]
  · rename_i _ habove
    rw [← Option.some.inj h, habove]
  · exact absurd h (by simp)

end Bracket

namespace Binary64

/-! ## The grid of a digit count -/

/-- The power of ten of the first digit of a positive magnitude.  The magnitude
is scaled by 10^330 first, which makes every count of units at least one. -/
def leadingExponent (magnitude : Nat) : Int :=
  ((Nat.toDigits 10 (magnitude * tenTo 330 / one)).length - 1 : Nat) - 330

/-- The neighbours of a positive magnitude among the multiples of `10 ^ grid`. -/
def bracketOn (grid : Int) (magnitude : Nat) : Bracket :=
  let num := if 0 ≤ grid then magnitude else magnitude * tenTo (-grid).toNat
  let den := if 0 ≤ grid then one * tenTo grid.toNat else one
  ⟨⟨num / den, grid⟩, ⟨num / den + 1, grid⟩, compare (2 * (num % den)) den⟩

/-- The neighbours of a positive magnitude among the decimals of `count`
significant digits. -/
def bracket (count magnitude : Nat) : Bracket :=
  bracketOn (leadingExponent magnitude - (count - 1 : Nat)) magnitude

/-! ## The shortest decimal -/

/-- Whether a decimal reads as the magnitude of `x`. -/
def readsBack (x : Binary64) (d : Decimal) : Bool := d.toBinary64.code = x.code

/-- The decimal with `count` significant digits that reads back as the magnitude
of `x`, if there is one. -/
def candidate? (tie : Tie) (x : Binary64) (count : Nat) : Option Decimal :=
  (bracket count x.magnitude).choose? tie x.readsBack

/-- All digits of a finite magnitude: a unit is 5^1074 steps of 10^-1074. -/
def exactDecimal (x : Binary64) : Decimal := ⟨x.magnitude * Nat.pow 5 1074, -1074⟩

/-- The shortest decimal that reads back as the magnitude of `x`. -/
def shortest (tie : Tie) (x : Binary64) : Decimal :=
  ((List.range 17).findSome? fun n => x.candidate? tie (n + 1)).getD x.exactDecimal

/-- A chosen decimal rounds to the number it was chosen for. -/
theorem candidate?_reads_back {tie : Tie} {x : Binary64} {count : Nat} {d : Decimal}
    (h : x.candidate? tie count = some d) : x.readsBack d = true :=
  Bracket.accept_of_choose? h

end Binary64

end TriggerGraph
