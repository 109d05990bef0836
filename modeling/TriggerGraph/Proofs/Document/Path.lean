import TriggerGraph.Proofs.Node.Path
import TriggerGraph.Value.Basic

/-!
# What a path spells

The check of a provider path takes it apart at its dots, its root is taken off character by
character, and a walk takes apart what is left.  On every accepted path they agree: the segments
below the root lead one by one to members of objects and items of arrays.  Only a slash or a
dollar sign alone stands for the whole source.

Main results:

- Theorem `Path.index?_eq_some_iff`: which index a segment spells.
- Theorem `Path.IsBelow.segments_relativeToSource`: what is left of a path without its root.
- Theorem `Document.resolve?_eq_some_iff_addresses`: what an accepted path finds.
- Theorem `Document.provides_extract?`: which value it finds there.
-/

namespace TriggerGraph

/-! ## Indices -/

namespace Digits

variable {cs : List Char} {n : Nat}

/-- Digits are read as their value, if there are any and nothing else. -/
theorem read?_eq_some_iff :
    read? cs = some n ↔ cs ≠ [] ∧ (∀ c ∈ cs, isDigit c = true) ∧ value cs = n := by
  unfold read?
  by_cases hne : cs = []
  · simp [hne]
  · simp [hne]

/-- Digits, at least one, with a value of one word. -/
structure OneWord (cs : List Char) (n : Nat) : Prop where
  ne_nil : cs ≠ []
  isDigit : ∀ c ∈ cs, isDigit c = true
  value_eq : value cs = n
  lt : n < 0x10000000000000000

/-- A number is read from the digits of one word. -/
theorem read?_bind_eq_some_iff :
    ((read? cs).bind fun n => if n < 0x10000000000000000 then some n else none) = some n ↔
      OneWord cs n := by
  rw [Option.bind_eq_some_iff]
  constructor
  · rintro ⟨m, hread, hm⟩
    rcases read?_eq_some_iff.1 hread with ⟨hne, hdigits, hvalue⟩
    split at hm
    · rename_i hlt
      cases hm
      exact ⟨hne, hdigits, hvalue, hlt⟩
    · cases hm
  · intro h
    exact ⟨n, read?_eq_some_iff.2 ⟨h.ne_nil, h.isDigit, h.value_eq⟩, if_pos h.lt⟩

/-- An unsigned number is read from the digits of one word behind an optional plus sign. -/
theorem unsigned?_eq_some_iff :
    unsigned? cs = some n ↔ ∃ digits, (cs = digits ∨ cs = '+' :: digits) ∧ OneWord digits n := by
  unfold unsigned?
  dsimp only
  split
  · rename_i digits
    rw [read?_bind_eq_some_iff]
    constructor
    · intro h
      exact ⟨digits, .inr rfl, h⟩
    · rintro ⟨others, hplus | hsame, h⟩
      · -- a plus sign is no digit
        subst hplus
        exact absurd (h.isDigit '+' List.mem_cons_self) (by decide)
      · cases hsame
        exact h
  · rename_i hplus
    rw [read?_bind_eq_some_iff]
    constructor
    · intro h
      exact ⟨_, .inl rfl, h⟩
    · rintro ⟨digits, rfl | hcs, h⟩
      · exact h
      · exact absurd hcs (hplus digits)

end Digits

namespace Path

variable {path segment : String} {below : List String} {index : Nat}

/-- The segment spells the index: digits behind an optional plus sign. -/
def Spells (segment : String) (index : Nat) : Prop :=
  ∃ digits, (segment.toList = digits ∨ segment.toList = '+' :: digits) ∧
    Digits.OneWord digits index

/-- A segment is read as the index that it spells. -/
theorem index?_eq_some_iff : index? segment = some index ↔ Spells segment index :=
  Digits.unsigned?_eq_some_iff

/-! ## Without the root -/

/-- What a text begins with is taken off it. -/
theorem stripFront?_append (front rest : List Char) :
    stripFront? front (front ++ rest) = some rest := by
  induction front with
  | nil => rfl
  | cons c front ih => rw [List.cons_append, stripFront?, if_pos rfl, ih]

/-- Without its root a path is the segments below it. -/
theorem IsBelow.relativeToSource_eq (h : IsBelow path below) :
    relativeToSource path = ".".intercalate below := by
  rcases List.exists_cons_of_ne_nil h.ne_nil with ⟨first, more, rfl⟩
  have hpath : path.toList =
      sourceRoot.toList ++ '.' :: (".".intercalate (first :: more)).toList := by
    rw [h.eq_intercalate, String.intercalate_cons_cons, String.toList_append,
      String.toList_append, List.append_assoc]
    rfl
  unfold relativeToSource
  rw [hpath, stripFront?_append]
  exact String.ofList_toList

/-- The segments of what is left without the root are those below it. -/
theorem IsBelow.segments_relativeToSource (h : IsBelow path below) :
    segments (relativeToSource path) = below :=
  (segments_eq_iff h.ne_nil).2 ⟨h.relativeToSource_eq, h.dotless⟩

/-- What is left without the root stands for the whole source exactly if it is a slash or a
dollar sign. -/
theorem IsBelow.isRoot_relativeToSource_iff (h : IsBelow path below) :
    isRoot (relativeToSource path) = true ↔ below = ["/"] ∨ below = ["$"] := by
  have hsegments := h.segments_relativeToSource
  unfold isRoot
  rw [Bool.or_eq_true, Bool.or_eq_true, decide_eq_true_eq, decide_eq_true_eq, decide_eq_true_eq]
  constructor
  · rintro ((hempty | hslash) | hdollar)
    · rw [hempty] at hsegments
      have hmem : "" ∈ below := hsegments ▸ List.mem_singleton_self ""
      exact absurd rfl (h.nonempty "" hmem)
    · rw [hslash] at hsegments
      exact .inl hsegments.symm
    · rw [hdollar] at hsegments
      exact .inr hsegments.symm
  · rw [h.relativeToSource_eq]
    rintro (rfl | rfl)
    · exact .inl (.inr rfl)
    · exact .inr rfl

end Path

/-! ## Walks -/

namespace Document

variable {source d inner : Document} {segment path : String} {segments below : List String}

/-- One segment leads from an object to the member of that name, and from an array to the item
at the index that the segment spells. -/
inductive StepsTo : Document → String → Document → Prop
  | member {members : List (String × Document)} {name : String} {inner : Document}
      (h : Keyed.find? name members = some inner) : StepsTo (.object members) name inner
  | item {items : List Document} {segment : String} {index : Nat} {inner : Document}
      (hindex : Path.Spells segment index) (h : items[index]? = some inner) :
      StepsTo (.array items) segment inner

/-- Segments lead step by step from one document to another. -/
inductive Reaches : Document → List String → Document → Prop
  | here (d : Document) : Reaches d [] d
  | step {d next inner : Document} {segment : String} {rest : List String}
      (h : StepsTo d segment next) (hrest : Reaches next rest inner) :
      Reaches d (segment :: rest) inner

/-- The segments below the source root address the document: a slash or a dollar sign alone
the source itself, others what they lead to. -/
def Addresses (source : Document) (below : List String) (d : Document) : Prop :=
  if below = ["/"] ∨ below = ["$"] then d = source else Reaches source below d

/-- A step leads where the relation says. -/
theorem step?_eq_some_iff : d.step? segment = some inner ↔ StepsTo d segment inner := by
  constructor
  · intro h
    cases d with
    | object members => exact .member h
    | array items =>
        rcases Option.bind_eq_some_iff.1 h with ⟨index, hindex, hitem⟩
        exact .item (Path.index?_eq_some_iff.1 hindex) hitem
    | _ => cases h
  · rintro (h | ⟨hindex, h⟩)
    · exact h
    · exact Option.bind_eq_some_iff.2 ⟨_, Path.index?_eq_some_iff.2 hindex, h⟩

/-- A walk finds what its segments lead to. -/
theorem walk?_eq_some_iff : d.walk? segments = some inner ↔ Reaches d segments inner := by
  induction segments generalizing d with
  | nil =>
      constructor
      · rintro ⟨⟩
        exact .here _
      · rintro ⟨⟩
        rfl
  | cons segment rest ih =>
      rw [walk?, Option.bind_eq_some_iff]
      constructor
      · rintro ⟨next, hnext, hrest⟩
        exact .step (step?_eq_some_iff.1 hnext) (ih.1 hrest)
      · rintro (_ | ⟨hnext, hrest⟩)
        exact ⟨_, step?_eq_some_iff.2 hnext, ih.2 hrest⟩

/-- A path leads from a document to what its segments lead to; an empty path, a slash and a dollar
sign lead to the document itself. -/
def LeadsTo (source : Document) (path : String) (d : Document) : Prop :=
  if Path.isRoot path = true then d = source else Reaches source (Path.segments path) d

/-- A path finds what it leads to. -/
theorem resolve?_eq_some_iff_leadsTo : source.resolve? path = some d ↔ source.LeadsTo path d := by
  unfold resolve? LeadsTo
  split
  · rw [Option.some.injEq, eq_comm]
  · exact walk?_eq_some_iff

/-- An accepted path finds what its segments address. -/
theorem resolve?_eq_some_iff_addresses (h : Path.IsBelow path below) :
    source.resolve? (Path.relativeToSource path) = some d ↔ source.Addresses below d := by
  rw [resolve?_eq_some_iff_leadsTo, LeadsTo, Addresses]
  simp only [h.isRoot_relativeToSource_iff, h.segments_relativeToSource]

/-! ## Values -/

/-- The result is what the segments below the source root provide: the value of the document
that they address, or none if they address nothing or a null. -/
def Provides (source : Document) (below : List String) : Option Value → Prop
  | some value => ∃ d, source.Addresses below d ∧ d ≠ .null ∧ value = Value.ofDocument d
  | none => (∀ d, ¬ source.Addresses below d) ∨ source.Addresses below .null

/-- The value extracted at an accepted path is what its segments provide. -/
theorem provides_extract? (h : Path.IsBelow path below) :
    source.Provides below (source.extract? (Path.relativeToSource path)) := by
  unfold extract?
  cases hfound : source.resolve? (Path.relativeToSource path) with
  | none =>
      refine .inl fun d hd => ?_
      rw [← resolve?_eq_some_iff_addresses h, hfound] at hd
      cases hd
  | some d =>
      rw [resolve?_eq_some_iff_addresses h] at hfound
      rw [Option.bind_some]
      cases hleaf : Value.ofLeaf? d with
      | none =>
          rw [Value.ofLeaf?_eq_none_iff] at hleaf
          exact .inr (hleaf ▸ hfound)
      | some value =>
          rw [Value.ofLeaf?_eq_some_iff] at hleaf
          exact ⟨d, hfound, hleaf.1, hleaf.2⟩

end Document

end TriggerGraph
