import TriggerGraph.Document.Text
import TriggerGraph.Json.Reader

/-!
# Layouts of a text

Compact text and text over lines are the same text but for the blanks between its parts.  A
layout says which blanks stand there: in front of each element and of a closing bracket, by its
level of nesting, and behind each colon.

Main results:

- Theorem `compact_chars`: without blanks a document has its compact text.
- Theorem `overLines_chars`: with line breaks and indentation it has its text over lines.
-/

namespace TriggerGraph

open Json (isBlank)
open Text (quoted newLine)

/-- The blanks of a text: those in front of elements and closing brackets at each level of
nesting, and those behind colons. -/
structure Layout where
  gap : Nat → List Char
  space : List Char
  isBlank_gap : ∀ level, ∀ c ∈ gap level, isBlank c = true
  isBlank_space : ∀ c ∈ space, isBlank c = true

namespace Layout

/-- No blanks. -/
def compact : Layout where
  gap _ := []
  space := []
  isBlank_gap _ _ h := by cases h
  isBlank_space _ h := by cases h

/-- Every element on a line of its own, two blanks for each level. -/
def overLines : Layout where
  gap := newLine
  space := [' ']
  isBlank_gap level c h := by
    rcases List.mem_cons.1 h with rfl | hblank
    · rfl
    · rw [List.eq_of_mem_replicate hblank]
      rfl
  isBlank_space c h := by
    rw [List.mem_singleton.1 h]
    rfl

mutual

/-- The text of a document in a layout, at a level of nesting. -/
def chars (layout : Layout) (level : Nat) : Document → List Char
  | .array [] => ['[', ']']
  | .array (d :: rest) =>
    '[' :: (layout.gap (level + 1) ++ (layout.chars (level + 1) d
      ++ (layout.itemChars (level + 1) rest ++ (layout.gap level ++ [']']))))
  | .object [] => ['\x7b', '\x7d']
  | .object ((key, d) :: rest) =>
    '\x7b' :: (layout.gap (level + 1) ++ (quoted key ++ ':' :: (layout.space
      ++ (layout.chars (level + 1) d ++ (layout.memberChars (level + 1) rest
        ++ (layout.gap level ++ ['\x7d']))))))
  | .null => Document.chars .null
  | .bool b => Document.chars (.bool b)
  | .number n => Document.chars (.number n)
  | .string s => Document.chars (.string s)

/-- The items after the first, each behind a comma. -/
def itemChars (layout : Layout) (level : Nat) : List Document → List Char
  | [] => []
  | d :: rest =>
    ',' :: (layout.gap level ++ (layout.chars level d ++ layout.itemChars level rest))

/-- The members after the first, each behind a comma. -/
def memberChars (layout : Layout) (level : Nat) : List (String × Document) → List Char
  | [] => []
  | (key, d) :: rest =>
    ',' :: (layout.gap level ++ (quoted key ++ ':' :: (layout.space
      ++ (layout.chars level d ++ layout.memberChars level rest))))

end

/-! ## The two layouts -/

mutual

/-- Without blanks a document has its compact text. -/
theorem compact_chars : ∀ (level : Nat) (d : Document), compact.chars level d = d.chars
  | _, .null => rfl
  | _, .bool _ => rfl
  | _, .number _ => rfl
  | _, .string _ => rfl
  | _, .array [] => rfl
  | level, .array (d :: rest) => by
      rw [chars, compact_chars, compact_itemChars, Document.chars]
      simp [compact]
  | _, .object [] => rfl
  | level, .object ((key, d) :: rest) => by
      rw [chars, compact_chars, compact_memberChars, Document.chars]
      simp [compact]

theorem compact_itemChars : ∀ (level : Nat) (ds : List Document),
    compact.itemChars level ds = Document.itemChars ds
  | _, [] => rfl
  | level, d :: rest => by
      rw [itemChars, compact_chars, compact_itemChars, Document.itemChars]
      simp [compact]

theorem compact_memberChars : ∀ (level : Nat) (ds : List (String × Document)),
    compact.memberChars level ds = Document.memberChars ds
  | _, [] => rfl
  | level, (key, d) :: rest => by
      rw [memberChars, compact_chars, compact_memberChars, Document.memberChars]
      simp [compact]

end

mutual

/-- With line breaks and indentation a document has its text over lines. -/
theorem overLines_chars : ∀ (level : Nat) (d : Document),
    overLines.chars level d = Document.prettyChars level d
  | _, .null => rfl
  | _, .bool _ => rfl
  | _, .number _ => rfl
  | _, .string _ => rfl
  | _, .array [] => rfl
  | level, .array (d :: rest) => by
      rw [chars, overLines_chars, overLines_itemChars, Document.prettyChars]
      simp [overLines]
  | _, .object [] => rfl
  | level, .object ((key, d) :: rest) => by
      rw [chars, overLines_chars, overLines_memberChars, Document.prettyChars]
      simp [overLines]

theorem overLines_itemChars : ∀ (level : Nat) (ds : List Document),
    overLines.itemChars level ds = Document.prettyItems level ds
  | _, [] => rfl
  | level, d :: rest => by
      rw [itemChars, overLines_chars, overLines_itemChars, Document.prettyItems]
      simp [overLines]

theorem overLines_memberChars : ∀ (level : Nat) (ds : List (String × Document)),
    overLines.memberChars level ds = Document.prettyMembers level ds
  | _, [] => rfl
  | level, (key, d) :: rest => by
      rw [memberChars, overLines_chars, overLines_memberChars, Document.prettyMembers]
      simp [overLines]

end

end Layout

end TriggerGraph
