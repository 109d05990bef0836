import TriggerGraph.Json.Reader
import TriggerGraph.Keyed

/-!
# Documents

A document is a JSON value read for its content: every leaf has a value, and an
object is a map, in which the last member written under a key counts.  A document
is read from a tree within a nesting budget.

Main results:

- Theorem `canonical_of_ofTree?`: whatever is read has the members of all its
  objects in key order.
- Theorem `ofTree?_mono`: a larger budget reads the same document.
-/

namespace TriggerGraph

open Json (Tree)

/-- A JSON value by content. -/
inductive Document where
  | null
  | bool (b : Bool)
  | number (n : Number)
  | string (s : String)
  | array (items : List Document)
  | object (members : List (String × Document))

namespace Document

/-! ## Reading a tree -/

mutual

/-- The document of a tree that nests at most `budget` arrays and objects. -/
def ofTree? : Nat → Tree → Option Document
  | _, .null => some .null
  | _, .bool b => some (.bool b)
  | _, .number n => n.map .number
  | _, .string s => s.map .string
  | 0, .array _ => none
  | budget + 1, .array items => (ofItems? budget items).map .array
  | 0, .object _ => none
  | budget + 1, .object members =>
    (ofMembers? budget members).map fun entries => .object (Keyed.ofList entries)

/-- The documents of the items of an array. -/
def ofItems? : Nat → List Tree → Option (List Document)
  | _, [] => some []
  | budget, item :: rest =>
    (ofTree? budget item).bind fun d => (ofItems? budget rest).map (d :: ·)

/-- The entries of the members of an object, as written. -/
def ofMembers? : Nat → List (Option String × Tree) → Option (List (String × Document))
  | _, [] => some []
  | budget, (key, item) :: rest =>
    key.bind fun k => (ofTree? budget item).bind fun d =>
      (ofMembers? budget rest).map ((k, d) :: ·)

end

/-- How many arrays and objects a text may nest. -/
def nestingLimit : Nat := 127

/-- The document of a text. -/
def ofText? (text : String) : Option Document :=
  (Tree.ofText? text).bind (ofTree? nestingLimit)

/-- A document of members given in any order. -/
def ofMembers (members : List (String × Document)) : Document :=
  .object (Keyed.ofList members)

/-! ## Shapes -/

/-- Whether the document is the null. -/
def isNull : Document → Bool
  | .null => true
  | _ => false

/-- Whether the document is an object. -/
def isObject : Document → Bool
  | .object _ => true
  | _ => false

mutual

/-- The members of every object are in key order. -/
def Canonical : Document → Prop
  | .array items => CanonicalItems items
  | .object members => Keyed.Ascending members ∧ CanonicalMembers members
  | _ => True

/-- Every document of a list is canonical. -/
def CanonicalItems : List Document → Prop
  | [] => True
  | d :: rest => Canonical d ∧ CanonicalItems rest

/-- Every document among members is canonical. -/
def CanonicalMembers : List (String × Document) → Prop
  | [] => True
  | (_, d) :: rest => Canonical d ∧ CanonicalMembers rest

end

mutual

/-- How many arrays and objects nest at most. -/
def depth : Document → Nat
  | .array items => depthItems items + 1
  | .object members => depthMembers members + 1
  | _ => 0

/-- The greatest depth of the documents of a list. -/
def depthItems : List Document → Nat
  | [] => 0
  | d :: rest => max (depth d) (depthItems rest)

/-- The greatest depth of the documents among members. -/
def depthMembers : List (String × Document) → Nat
  | [] => 0
  | (_, d) :: rest => max (depth d) (depthMembers rest)

end

/-! ## What reading a tree yields -/

/-- Insertion keeps the members canonical. -/
theorem CanonicalMembers.insert {members : List (String × Document)}
    (h : CanonicalMembers members) (key : String) {d : Document} (hd : Canonical d) :
    CanonicalMembers (Keyed.insert key d members) := by
  induction members with
  | nil => exact ⟨hd, h⟩
  | cons entry rest ih =>
      obtain ⟨hEntry, hRest⟩ := h
      unfold Keyed.insert
      split
      · exact ⟨hd, hEntry, hRest⟩
      · split
        · exact ⟨hd, hRest⟩
        · exact ⟨hEntry, ih hRest⟩

theorem CanonicalMembers.foldl_insert {entries members : List (String × Document)}
    (hEntries : CanonicalMembers entries) (h : CanonicalMembers members) :
    CanonicalMembers (entries.foldl (fun m e => Keyed.insert e.1 e.2 m) members) := by
  induction entries generalizing members with
  | nil => exact h
  | cons entry rest ih => exact ih hEntries.2 (h.insert entry.1 hEntries.1)

/-- A map of canonical documents is a canonical object. -/
theorem canonical_ofMembers {entries : List (String × Document)}
    (h : CanonicalMembers entries) : Canonical (ofMembers entries) :=
  ⟨Keyed.ascending_ofList entries, h.foldl_insert trivial⟩

mutual

/-- Whatever is read has the members of all its objects in key order. -/
theorem canonical_of_ofTree? : ∀ (budget : Nat) (t : Tree) {d : Document},
    ofTree? budget t = some d → Canonical d
  | _, .null, _, h => by cases h; trivial
  | _, .bool _, _, h => by cases h; trivial
  | _, .number n, _, h => by
      cases n with
      | none => cases h
      | some n => cases h; trivial
  | _, .string s, _, h => by
      cases s with
      | none => cases h
      | some s => cases h; trivial
  | 0, .array _, _, h => by cases h
  | 0, .object _, _, h => by cases h
  | budget + 1, .array items, _, h => by
      obtain ⟨ds, hds, rfl⟩ := Option.map_eq_some_iff.1 h
      exact canonicalItems_of_ofItems? budget items hds
  | budget + 1, .object members, _, h => by
      obtain ⟨entries, hentries, rfl⟩ := Option.map_eq_some_iff.1 h
      exact canonical_ofMembers (canonicalMembers_of_ofMembers? budget members hentries)

theorem canonicalItems_of_ofItems? : ∀ (budget : Nat) (ts : List Tree) {ds : List Document},
    ofItems? budget ts = some ds → CanonicalItems ds
  | _, [], _, h => by cases h; trivial
  | budget, t :: rest, _, h => by
      obtain ⟨d, hd, h⟩ := Option.bind_eq_some_iff.1 h
      obtain ⟨ds, hds, rfl⟩ := Option.map_eq_some_iff.1 h
      exact ⟨canonical_of_ofTree? budget t hd, canonicalItems_of_ofItems? budget rest hds⟩

theorem canonicalMembers_of_ofMembers? :
    ∀ (budget : Nat) (ts : List (Option String × Tree)) {ds : List (String × Document)},
    ofMembers? budget ts = some ds → CanonicalMembers ds
  | _, [], _, h => by cases h; trivial
  | budget, (key, t) :: rest, _, h => by
      obtain ⟨k, -, h⟩ := Option.bind_eq_some_iff.1 h
      obtain ⟨d, hd, h⟩ := Option.bind_eq_some_iff.1 h
      obtain ⟨ds, hds, rfl⟩ := Option.map_eq_some_iff.1 h
      exact ⟨canonical_of_ofTree? budget t hd, canonicalMembers_of_ofMembers? budget rest hds⟩

end

mutual

/-- A larger budget reads the same document. -/
theorem ofTree?_mono : ∀ {small large : Nat} (t : Tree) {d : Document}, small ≤ large →
    ofTree? small t = some d → ofTree? large t = some d
  | _, _, .null, _, _, h => by simpa [ofTree?] using h
  | _, _, .bool _, _, _, h => by simpa [ofTree?] using h
  | _, _, .number _, _, _, h => by simpa [ofTree?] using h
  | _, _, .string _, _, _, h => by simpa [ofTree?] using h
  | 0, _, .array _, _, _, h => by cases h
  | 0, _, .object _, _, _, h => by cases h
  | small + 1, large + 1, .array items, _, hle, h => by
      obtain ⟨ds, hds, rfl⟩ := Option.map_eq_some_iff.1 h
      rw [ofTree?, ofItems?_mono items (Nat.le_of_succ_le_succ hle) hds]
      rfl
  | small + 1, large + 1, .object members, _, hle, h => by
      obtain ⟨entries, hentries, rfl⟩ := Option.map_eq_some_iff.1 h
      rw [ofTree?, ofMembers?_mono members (Nat.le_of_succ_le_succ hle) hentries]
      rfl

theorem ofItems?_mono : ∀ {small large : Nat} (ts : List Tree) {ds : List Document},
    small ≤ large → ofItems? small ts = some ds → ofItems? large ts = some ds
  | _, _, [], _, _, h => by simpa [ofItems?] using h
  | small, large, t :: rest, _, hle, h => by
      obtain ⟨d, hd, h⟩ := Option.bind_eq_some_iff.1 h
      obtain ⟨ds, hds, rfl⟩ := Option.map_eq_some_iff.1 h
      simp [ofItems?, ofTree?_mono t hle hd, ofItems?_mono rest hle hds]

theorem ofMembers?_mono : ∀ {small large : Nat} (ts : List (Option String × Tree))
    {ds : List (String × Document)}, small ≤ large →
    ofMembers? small ts = some ds → ofMembers? large ts = some ds
  | _, _, [], _, _, h => by simpa [ofMembers?] using h
  | small, large, (key, t) :: rest, _, hle, h => by
      obtain ⟨k, hk, h⟩ := Option.bind_eq_some_iff.1 h
      obtain ⟨d, hd, h⟩ := Option.bind_eq_some_iff.1 h
      obtain ⟨ds, hds, rfl⟩ := Option.map_eq_some_iff.1 h
      simp [ofMembers?, hk, ofTree?_mono t hle hd, ofMembers?_mono rest hle hds]

end

end Document

end TriggerGraph
