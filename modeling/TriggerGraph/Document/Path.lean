import TriggerGraph.Document.Basic

/-!
# Paths into a document

A path is a text of segments between dots.  Each segment steps into an object by
key or into an array by index; the empty path, a slash and a dollar sign address
the whole document.

Main results:

- Theorem `join_pieces`: the segments joined by their separator give the path back.
- Theorem `resolve_root`: the three root paths address the document itself.
-/

namespace TriggerGraph

namespace Path

/-! ## Segments -/

/-- The stretches of a text between separators, at least one. -/
def pieces (separator : Char) : List Char → List (List Char)
  | [] => [[]]
  | c :: rest =>
    if c = separator then [] :: pieces separator rest
    else match pieces separator rest with
      | [] => [[c]]
      | first :: more => (c :: first) :: more

/-- The segments of a path, at least one. -/
def segments (path : String) : List String :=
  (pieces '.' path.toList).map String.ofList

/-- Stretches with a separator between them. -/
def join (separator : Char) : List (List Char) → List Char
  | [] => []
  | [piece] => piece
  | piece :: next :: rest => piece ++ separator :: join separator (next :: rest)

theorem pieces_ne_nil (separator : Char) (cs : List Char) : pieces separator cs ≠ [] := by
  cases cs with
  | nil => simp [pieces]
  | cons c rest =>
      unfold pieces
      split
      · simp
      · split <;> simp

/-- The stretches joined by their separator give the text back. -/
theorem join_pieces (separator : Char) (cs : List Char) :
    join separator (pieces separator cs) = cs := by
  induction cs with
  | nil => rfl
  | cons c rest ih =>
      unfold pieces
      split
      · rename_i hsep
        cases hrest : pieces separator rest with
        | nil => exact absurd hrest (pieces_ne_nil separator rest)
        | cons first more => simp [join, ← hrest, ih, hsep]
      · cases hrest : pieces separator rest with
        | nil => exact absurd hrest (pieces_ne_nil separator rest)
        | cons first more =>
            rw [hrest] at ih
            cases more with
            | nil => simpa [join] using ih
            | cons next more => simpa [join] using ih

/-- The array index that a segment spells: digits behind an optional plus sign,
below 2^64. -/
def index? (segment : String) : Option Nat := Digits.unsigned? segment.toList

/-- Whether a path addresses the whole document. -/
def isRoot (path : String) : Bool := path = "" || path = "/" || path = "$"

end Path

namespace Document

/-! ## Resolution -/

/-- One step into a document. -/
def step? (d : Document) (segment : String) : Option Document :=
  match d with
  | .object members => Keyed.find? segment members
  | .array items => (Path.index? segment).bind fun i => items[i]?
  | _ => none

/-- The steps of all segments. -/
def walk? : Document → List String → Option Document
  | d, [] => some d
  | d, segment :: rest => (d.step? segment).bind fun inner => walk? inner rest

/-- The document at a path.  A missing path has none; an explicit null is one. -/
def resolve? (d : Document) (path : String) : Option Document :=
  if Path.isRoot path then some d else d.walk? (Path.segments path)

/-- The root paths address the document itself. -/
theorem resolve_root {path : String} (h : Path.isRoot path = true) (d : Document) :
    d.resolve? path = some d := by
  simp [resolve?, h]

end Document

end TriggerGraph
