import TriggerGraph.Json.Tree
import TriggerGraph.Number.Digits

/-!
# Reading JSON text

The reader accepts strict JSON and nothing else: four blank characters, no leading
zeros, no raw control characters inside strings, nothing after the value.  It
works on lists of characters and is bounded by twice their number, since every
value and every separator consumes a character.

Main results:

- Theorem `joinUnits_scalar`: units outside the surrogate range are characters by
  themselves.
-/

namespace TriggerGraph.Json

open Digits (isDigit hexDigit?)

/-! ## Strings -/

/-- One of the four blank characters. -/
def isBlank (c : Char) : Bool := c = ' ' || c = '\t' || c = '\n' || c = '\r'

/-- A text without the blanks at its front. -/
def skipBlanks (cs : List Char) : List Char := cs.dropWhile isBlank

/-- The 16-bit unit that four hexadecimal digits name. -/
def hexUnit? (a b c d : Char) : Option Nat := do
  let a ← hexDigit? a
  let b ← hexDigit? b
  let c ← hexDigit? c
  let d ← hexDigit? d
  return ((a * 16 + b) * 16 + c) * 16 + d

/-- The character that a one-letter escape stands for. -/
def escaped? (c : Char) : Option Char :=
  if c = '"' ∨ c = '\\' ∨ c = '/' then some c
  else if c = 'b' then some '\x08'
  else if c = 'f' then some '\x0c'
  else if c = 'n' then some '\n'
  else if c = 'r' then some '\r'
  else if c = 't' then some '\t'
  else none

/-- The units of a string up to its closing quote, and what follows it.  A raw
character is its own code point, an escape of four digits the unit it names. -/
def scanString : List Char → Option (List Nat × List Char)
  | [] => none
  | c :: rest =>
    if c = '"' then some ([], rest)
    else if c = '\\' then
      match rest with
      | 'u' :: h1 :: h2 :: h3 :: h4 :: rest => do
        let unit ← hexUnit? h1 h2 h3 h4
        let (units, rest) ← scanString rest
        return (unit :: units, rest)
      | e :: rest => do
        let c ← escaped? e
        let (units, rest) ← scanString rest
        return (c.toNat :: units, rest)
      | [] => none
    else if c.toNat < 0x20 then none
    else do
      let (units, rest) ← scanString rest
      return (c.toNat :: units, rest)

/-- Whether a unit is the first half of a pair. -/
def isHighSurrogate (unit : Nat) : Bool := 0xD800 ≤ unit && unit < 0xDC00

/-- Whether a unit is the second half of a pair. -/
def isLowSurrogate (unit : Nat) : Bool := 0xDC00 ≤ unit && unit < 0xE000

/-- The characters of a list of units: a high surrogate needs the low one that
completes it, and a low surrogate alone stands for nothing. -/
def joinUnits : List Nat → Option (List Char)
  | [] => some []
  | unit :: rest =>
    if isHighSurrogate unit then
      match rest with
      | low :: rest =>
        if isLowSurrogate low then
          (joinUnits rest).map
            (Char.ofNat (0x10000 + (unit - 0xD800) * 0x400 + (low - 0xDC00)) :: ·)
        else none
      | [] => none
    else if isLowSurrogate unit then none
    else (joinUnits rest).map (Char.ofNat unit :: ·)

/-- Units outside the surrogate range are characters by themselves. -/
theorem joinUnits_scalar {unit : Nat} (h : unit < 0xD800 ∨ 0xE000 ≤ unit) (rest : List Nat) :
    joinUnits (unit :: rest) = (joinUnits rest).map (Char.ofNat unit :: ·) := by
  have hHigh : isHighSurrogate unit = false := by
    simp only [isHighSurrogate, Bool.and_eq_false_iff, decide_eq_false_iff_not]
    omega
  have hLow : isLowSurrogate unit = false := by
    simp only [isLowSurrogate, Bool.and_eq_false_iff, decide_eq_false_iff_not]
    omega
  rw [joinUnits.eq_def]
  simp [hHigh, hLow]

/-- The string after an opening quote, and what follows its closing quote. -/
def readString (cs : List Char) : Option (Option String × List Char) :=
  (scanString cs).map fun scanned => ((joinUnits scanned.1).map String.ofList, scanned.2)

/-! ## Numbers -/

/-- A number as written. -/
structure Literal where
  negative : Bool
  whole : List Char
  fraction : Option (List Char)
  exponent : Option (Bool × List Char)
deriving DecidableEq

/-- Digits, at least one. -/
def scanDigits (cs : List Char) : Option (List Char × List Char) :=
  let digits := cs.takeWhile isDigit
  if digits.isEmpty then none else some (digits, cs.dropWhile isDigit)

/-- The part before the point: a lone zero or digits that do not start with one. -/
def scanWhole : List Char → Option (List Char × List Char)
  | '0' :: rest =>
    match rest with
    | [] => some (['0'], [])
    | c :: more => if isDigit c then none else some (['0'], c :: more)
  | cs => scanDigits cs

/-- The part after the point, if there is one. -/
def scanFraction : List Char → Option (Option (List Char) × List Char)
  | '.' :: rest => (scanDigits rest).map fun scanned => (some scanned.1, scanned.2)
  | cs => some (none, cs)

/-- The exponent, if there is one, with its sign. -/
def scanExponent : List Char → Option (Option (Bool × List Char) × List Char)
  | [] => some (none, [])
  | c :: rest =>
    if c = 'e' ∨ c = 'E' then
      match rest with
      | '-' :: rest => (scanDigits rest).map fun scanned => (some (true, scanned.1), scanned.2)
      | '+' :: rest => (scanDigits rest).map fun scanned => (some (false, scanned.1), scanned.2)
      | rest => (scanDigits rest).map fun scanned => (some (false, scanned.1), scanned.2)
    else some (none, c :: rest)

/-- A number without its sign. -/
def scanMagnitude (negative : Bool) (cs : List Char) : Option (Literal × List Char) := do
  let (whole, rest) ← scanWhole cs
  let (fraction, rest) ← scanFraction rest
  let (exponent, rest) ← scanExponent rest
  return (⟨negative, whole, fraction, exponent⟩, rest)

/-- A number and what follows it. -/
def scanNumber : List Char → Option (Literal × List Char)
  | '-' :: rest => scanMagnitude true rest
  | cs => scanMagnitude false cs

namespace Literal

/-- The binary64 number nearest to the literal. -/
def toBinary64 (l : Literal) : Binary64 :=
  let fraction := l.fraction.getD []
  let exponent : Int := match l.exponent with
    | none => 0
    | some (true, digits) => -(Digits.value digits)
    | some (false, digits) => Digits.value digits
  Binary64.ofDecimal l.negative (Digits.value (l.whole ++ fraction)) (exponent - fraction.length)

/-- Whether the literal has neither a fraction nor an exponent. -/
def isPlain (l : Literal) : Bool := l.fraction.isNone && l.exponent.isNone

/-- The number that the literal denotes: plain digits that fit a word are a whole
number, except for a negative zero, and everything else is floating point.  A
literal that rounds to an infinity denotes nothing. -/
def number? (l : Literal) : Option Number :=
  let whole : Int := if l.negative then -(Digits.value l.whole) else Digits.value l.whole
  let word := if l.isPlain && !(l.negative && whole = 0) then WordInt.ofInt? whole else none
  match word with
  | some i => some (.int i)
  | none => if l.toBinary64.isFinite then some (.float l.toBinary64) else none

end Literal

/-! ## Values -/

mutual

/-- A value at the front of a text, and what follows it. -/
def readValue : Nat → List Char → Option (Tree × List Char)
  | 0, _ => none
  | fuel + 1, cs =>
    match skipBlanks cs with
    | 'n' :: 'u' :: 'l' :: 'l' :: rest => some (.null, rest)
    | 't' :: 'r' :: 'u' :: 'e' :: rest => some (.bool true, rest)
    | 'f' :: 'a' :: 'l' :: 's' :: 'e' :: rest => some (.bool false, rest)
    | '"' :: rest => (readString rest).map fun read => (.string read.1, read.2)
    | '[' :: rest =>
      match skipBlanks rest with
      | ']' :: rest => some (.array [], rest)
      | rest => (readItems fuel rest).map fun read => (.array read.1, read.2)
    | '\x7b' :: rest =>
      match skipBlanks rest with
      | '\x7d' :: rest => some (.object [], rest)
      | rest => (readMembers fuel rest).map fun read => (.object read.1, read.2)
    | rest => (scanNumber rest).map fun read => (.number read.1.number?, read.2)

/-- The items of an array up to its closing bracket, at least one. -/
def readItems : Nat → List Char → Option (List Tree × List Char)
  | 0, _ => none
  | fuel + 1, cs => do
    let (item, rest) ← readValue fuel cs
    match skipBlanks rest with
    | ',' :: rest => (readItems fuel rest).map fun read => (item :: read.1, read.2)
    | ']' :: rest => some ([item], rest)
    | _ => none

/-- The members of an object up to its closing brace, at least one. -/
def readMembers : Nat → List Char → Option (List (Option String × Tree) × List Char)
  | 0, _ => none
  | fuel + 1, cs =>
    match skipBlanks cs with
    | '"' :: rest => do
      let (key, rest) ← readString rest
      match skipBlanks rest with
      | ':' :: rest => do
        let (value, rest) ← readValue fuel rest
        match skipBlanks rest with
        | ',' :: rest => (readMembers fuel rest).map fun read => ((key, value) :: read.1, read.2)
        | '\x7d' :: rest => some ([(key, value)], rest)
        | _ => none
      | _ => none
    | _ => none

end

/-- The tree of a whole text. -/
def Tree.ofChars? (cs : List Char) : Option Tree :=
  match readValue (2 * cs.length + 2) cs with
  | some (tree, rest) => if (skipBlanks rest).isEmpty then some tree else none
  | none => none

/-- The tree of a whole text. -/
def Tree.ofText? (text : String) : Option Tree := ofChars? text.toList

end TriggerGraph.Json
