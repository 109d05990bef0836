import TriggerGraph.Document.Basic
import TriggerGraph.Number.Text

/-!
# The text of a document

A document is written compactly, or laid out over lines with two blanks for each
level of nesting.  Strings escape the quote, the backslash and the characters
below U+0020, of which five have a letter of their own.
-/

namespace TriggerGraph

namespace Text

/-! ## Strings -/

/-- How one character is written inside quotes. -/
def escaped (c : Char) : List Char :=
  if c = '"' then ['\\', '"']
  else if c = '\\' then ['\\', '\\']
  else if c = '\x08' then ['\\', 'b']
  else if c = '\x0c' then ['\\', 'f']
  else if c = '\n' then ['\\', 'n']
  else if c = '\r' then ['\\', 'r']
  else if c = '\t' then ['\\', 't']
  else if c.toNat < 0x20 then
    ['\\', 'u', '0', '0', Nat.digitChar (c.toNat / 16), Nat.digitChar (c.toNat % 16)]
  else [c]

/-- A string inside quotes. -/
def quoted (s : String) : List Char := '"' :: (s.toList.flatMap escaped ++ ['"'])

/-- A new line, indented by two blanks for each level. -/
def newLine (level : Nat) : List Char := '\n' :: List.replicate (2 * level) ' '

end Text

namespace Document

open Text (quoted newLine)

/-! ## Compact text -/

mutual

/-- The compact text. -/
def chars : Document → List Char
  | .null => ['n', 'u', 'l', 'l']
  | .bool true => ['t', 'r', 'u', 'e']
  | .bool false => ['f', 'a', 'l', 's', 'e']
  | .number n => n.documentText
  | .string s => quoted s
  | .array [] => ['[', ']']
  | .array (d :: rest) => '[' :: (chars d ++ itemChars rest ++ [']'])
  | .object [] => ['\x7b', '\x7d']
  | .object ((key, d) :: rest) =>
    '\x7b' :: (quoted key ++ ':' :: chars d ++ memberChars rest ++ ['\x7d'])

/-- The items after the first, each behind a comma. -/
def itemChars : List Document → List Char
  | [] => []
  | d :: rest => ',' :: chars d ++ itemChars rest

/-- The members after the first, each behind a comma. -/
def memberChars : List (String × Document) → List Char
  | [] => []
  | (key, d) :: rest => ',' :: quoted key ++ ':' :: chars d ++ memberChars rest

end

/-- The compact text. -/
def text (d : Document) : String := String.ofList d.chars

/-! ## Text over lines -/

mutual

/-- The text over lines, at a level of nesting. -/
def prettyChars (level : Nat) : Document → List Char
  | .array [] => ['[', ']']
  | .array (d :: rest) =>
    '[' :: newLine (level + 1) ++ prettyChars (level + 1) d ++ prettyItems (level + 1) rest
      ++ newLine level ++ [']']
  | .object [] => ['\x7b', '\x7d']
  | .object ((key, d) :: rest) =>
    '\x7b' :: newLine (level + 1) ++ quoted key ++ ':' :: ' ' :: prettyChars (level + 1) d
      ++ prettyMembers (level + 1) rest ++ newLine level ++ ['\x7d']
  | .null => chars .null
  | .bool b => chars (.bool b)
  | .number n => chars (.number n)
  | .string s => chars (.string s)

/-- The items after the first, each on a line of its own. -/
def prettyItems (level : Nat) : List Document → List Char
  | [] => []
  | d :: rest => ',' :: newLine level ++ prettyChars level d ++ prettyItems level rest

/-- The members after the first, each on a line of its own. -/
def prettyMembers (level : Nat) : List (String × Document) → List Char
  | [] => []
  | (key, d) :: rest =>
    ',' :: newLine level ++ quoted key ++ ':' :: ' ' :: prettyChars level d
      ++ prettyMembers level rest

end

/-- The text over lines. -/
def prettyText (d : Document) : String := String.ofList (prettyChars 0 d)

end Document

end TriggerGraph
