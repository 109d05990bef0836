/-!
# Digits

Whole numbers are read from decimal digits, codes from hexadecimal ones.  Where a
program takes a number of one word, it takes digits behind an optional sign and
nothing else, and leading zeros do no harm.

Main results:

- Definitions `unsigned?` and `signed?`: the number of one word that a text spells.
-/

namespace TriggerGraph

namespace Digits

/-- One of the ten decimal digits. -/
def isDigit (c : Char) : Bool := '0' ≤ c && c ≤ '9'

/-- The value of decimal digits. -/
def value (digits : List Char) : Nat :=
  digits.foldl (fun total c => total * 10 + (c.toNat - '0'.toNat)) 0

/-- The value of a hexadecimal digit. -/
def hexDigit? (c : Char) : Option Nat :=
  if '0' ≤ c ∧ c ≤ '9' then some (c.toNat - '0'.toNat)
  else if 'a' ≤ c ∧ c ≤ 'f' then some (c.toNat - 'a'.toNat + 10)
  else if 'A' ≤ c ∧ c ≤ 'F' then some (c.toNat - 'A'.toNat + 10)
  else none

/-- The value of a text that is nothing but digits, at least one. -/
def read? (cs : List Char) : Option Nat :=
  if cs.isEmpty || !cs.all isDigit then none else some (value cs)

/-- An unsigned number of one word: digits behind an optional plus sign. -/
def unsigned? (cs : List Char) : Option Nat :=
  let digits := match cs with
    | '+' :: rest => rest
    | cs => cs
  (read? digits).bind fun n => if n < 0x10000000000000000 then some n else none

/-- A signed number of one word: digits behind an optional sign. -/
def signed? (cs : List Char) : Option Int :=
  let number : Option Int := match cs with
    | '+' :: rest => (read? rest).map fun n => n
    | '-' :: rest => (read? rest).map fun n => -n
    | cs => (read? cs).map fun n => n
  number.bind fun i =>
    if -0x8000000000000000 ≤ i ∧ i < 0x8000000000000000 then some i else none

end Digits

end TriggerGraph
