import TriggerGraph.Number.Basic
import TriggerGraph.Number.Shortest

/-!
# The texts of a number

Numbers have two texts.  The document text is a JSON number: a floating-point
number always shows a fraction or an exponent, and an exponent is used from 10^16
on and below 10^-5.  The display text never uses an exponent and drops an empty
fraction.

Main results:

- Definitions `Number.documentText` and `Binary64.displayText`: the two texts.
-/

namespace TriggerGraph

/-- A whole number in decimal. -/
def decimalText (i : Int) : List Char :=
  if i < 0 then '-' :: Nat.toDigits 10 i.natAbs else Nat.toDigits 10 i.natAbs

namespace Decimal

/-! ## Layouts of digits -/

/-- Positional notation; `closing` follows a number without a fraction. -/
def positional (closing : List Char) (d : Decimal) : List Char :=
  let digits := d.chars
  let point := d.scientificExponent + 1
  if point ≤ 0 then
    '0' :: '.' :: (List.replicate (-point).toNat '0' ++ digits)
  else if digits.length ≤ point.toNat then
    digits ++ List.replicate (point.toNat - digits.length) '0' ++ closing
  else
    digits.take point.toNat ++ '.' :: digits.drop point.toNat

/-- Scientific notation with one digit before the point and a signed exponent. -/
def scientific (d : Decimal) : List Char :=
  let exponent := d.scientificExponent
  let mantissa := match d.chars with
    | digit :: next :: rest => digit :: '.' :: next :: rest
    | short => short
  mantissa ++ 'e' :: (if exponent < 0 then '-' else '+') :: Nat.toDigits 10 exponent.natAbs

end Decimal

namespace Binary64

/-! ## Floating-point numbers -/

/-- A text behind the sign of a number. -/
def signed (x : Binary64) (text : List Char) : List Char :=
  if x.negative then '-' :: text else text

/-- The document text.  An infinity has no number to write. -/
def documentText (x : Binary64) : List Char :=
  if !x.isFinite then ['n', 'u', 'l', 'l']
  else if x.isZero then x.signed ['0', '.', '0']
  else
    let d := x.shortest .even
    let exponent := d.scientificExponent
    x.signed (if -5 ≤ exponent ∧ exponent ≤ 15 then d.positional ['.', '0'] else d.scientific)

/-- The display text. -/
def displayText (x : Binary64) : List Char :=
  x.signed <|
    if !x.isFinite then ['i', 'n', 'f']
    else if x.isZero then ['0']
    else (x.shortest .up).positional []

end Binary64

/-- The document text of a number. -/
def Number.documentText : Number → List Char
  | .int i => decimalText i.val
  | .float x => x.documentText

end TriggerGraph
