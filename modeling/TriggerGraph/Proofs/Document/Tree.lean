import TriggerGraph.Proofs.Keyed
import TriggerGraph.Value.Basic

/-!
# The tree of a document

A document has a tree of its own, with every leaf's value and its members in key order.  A
canonical document is read back from its tree whenever the budget covers its depth, and from no
smaller budget.  What is read from a tree keeps within the budget and has the numbers of the tree.

Main results:

- Theorem `fitsIn_of_ofTree?`: what is read from finite numbers fits in the budget.
- Theorem `FitsIn.ofTree?_toTree_iff`: a document is read back from its tree exactly within the
  budgets it fits in.
-/

namespace TriggerGraph

open Json (Tree)

/-! ## Finite numbers -/

namespace Json.Tree

mutual

/-- All numbers, at every depth, that have a value are finite. -/
def AllFinite : Tree → Prop
  | .number n => ∀ m ∈ n, m.isFinite = true
  | .array items => AllFiniteItems items
  | .object members => AllFiniteMembers members
  | _ => True

/-- That holds of every tree of a list. -/
def AllFiniteItems : List Tree → Prop
  | [] => True
  | t :: rest => AllFinite t ∧ AllFiniteItems rest

/-- That holds of every tree among members. -/
def AllFiniteMembers : List (Option String × Tree) → Prop
  | [] => True
  | (_, t) :: rest => AllFinite t ∧ AllFiniteMembers rest

end

theorem AllFiniteItems.allFinite {items : List Tree} (h : AllFiniteItems items) :
    ∀ t ∈ items, t.AllFinite := by
  induction items with
  | nil => simp
  | cons first rest ih => exact List.forall_mem_cons.2 ⟨h.1, ih h.2⟩

end Json.Tree

namespace Document

mutual

/-- All numbers, at every depth, are finite: the documents that a text can hold. -/
def AllFinite : Document → Prop
  | .number n => n.isFinite = true
  | .array items => AllFiniteItems items
  | .object members => AllFiniteMembers members
  | _ => True

/-- That holds of every document of a list. -/
def AllFiniteItems : List Document → Prop
  | [] => True
  | d :: rest => AllFinite d ∧ AllFiniteItems rest

/-- That holds of every document among members. -/
def AllFiniteMembers : List (String × Document) → Prop
  | [] => True
  | (_, d) :: rest => AllFinite d ∧ AllFiniteMembers rest

end

theorem allFiniteMembers_iff {members : List (String × Document)} :
    AllFiniteMembers members ↔ ∀ member ∈ members, member.2.AllFinite := by
  induction members with
  | nil => simp [AllFiniteMembers]
  | cons member rest ih =>
      rw [AllFiniteMembers, List.forall_mem_cons, ih]

theorem allFiniteItems_iff {items : List Document} :
    AllFiniteItems items ↔ ∀ d ∈ items, d.AllFinite := by
  induction items with
  | nil => simp [AllFiniteItems]
  | cons d rest ih => rw [AllFiniteItems, List.forall_mem_cons, ih]

mutual

/-- In particular the numbers outside objects are finite. -/
theorem AllFinite.finiteOutside : ∀ {d : Document}, d.AllFinite → d.FiniteOutside
  | .null, _ => trivial
  | .bool _, _ => trivial
  | .number _, h => h
  | .string _, _ => trivial
  | .array _, h => AllFiniteItems.finiteItems h
  | .object _, _ => trivial

theorem AllFiniteItems.finiteItems : ∀ {items : List Document}, AllFiniteItems items →
    FiniteItems items
  | [], _ => trivial
  | _ :: _, h => ⟨AllFinite.finiteOutside h.1, AllFiniteItems.finiteItems h.2⟩

end

/-- A document that is read as a value is the document of that value. -/
theorem AllFinite.toDocument_ofDocument {d : Document} (h : d.AllFinite) :
    (Value.ofDocument d).toDocument = d :=
  Value.toDocument_ofDocument d h.finiteOutside

/-! ## Depth -/

theorem depthMembers_le_iff {members : List (String × Document)} {budget : Nat} :
    depthMembers members ≤ budget ↔ ∀ member ∈ members, member.2.depth ≤ budget := by
  induction members with
  | nil => simp [depthMembers]
  | cons member rest ih => rw [depthMembers, List.forall_mem_cons, Nat.max_le, ih]

theorem depthItems_le_iff {items : List Document} {budget : Nat} :
    depthItems items ≤ budget ↔ ∀ d ∈ items, d.depth ≤ budget := by
  induction items with
  | nil => simp [depthItems]
  | cons d rest ih => rw [depthItems, List.forall_mem_cons, Nat.max_le, ih]

mutual

/-- A document that is read keeps within the budget. -/
theorem depth_le_of_ofTree? : ∀ {budget : Nat} {t : Tree} {d : Document},
    ofTree? budget t = some d → d.depth ≤ budget
  | _, .null, _, h => by cases h; exact Nat.zero_le _
  | _, .bool _, _, h => by cases h; exact Nat.zero_le _
  | _, .number n, _, h => by
      obtain ⟨m, -, rfl⟩ := Option.map_eq_some_iff.1 h
      exact Nat.zero_le _
  | _, .string s, _, h => by
      obtain ⟨text, -, rfl⟩ := Option.map_eq_some_iff.1 h
      exact Nat.zero_le _
  | 0, .array _, _, h => by cases h
  | 0, .object _, _, h => by cases h
  | _ + 1, .array items, _, h => by
      obtain ⟨ds, hds, rfl⟩ := Option.map_eq_some_iff.1 h
      exact Nat.succ_le_succ (depthItems_le_of_ofItems? hds)
  | _ + 1, .object members, _, h => by
      obtain ⟨entries, hentries, rfl⟩ := Option.map_eq_some_iff.1 h
      have hdepth := depthMembers_le_iff.1 (depthMembers_le_of_ofMembers? hentries)
      exact Nat.succ_le_succ (depthMembers_le_iff.2 fun member hmem =>
        hdepth member (Keyed.mem_of_mem_ofList hmem))

theorem depthItems_le_of_ofItems? : ∀ {budget : Nat} {ts : List Tree} {ds : List Document},
    ofItems? budget ts = some ds → depthItems ds ≤ budget
  | _, [], _, h => by cases h; exact Nat.zero_le _
  | _, _ :: _, _, h => by
      obtain ⟨d, hd, h⟩ := Option.bind_eq_some_iff.1 h
      obtain ⟨ds, hds, rfl⟩ := Option.map_eq_some_iff.1 h
      exact Nat.max_le.2 ⟨depth_le_of_ofTree? hd, depthItems_le_of_ofItems? hds⟩

theorem depthMembers_le_of_ofMembers? : ∀ {budget : Nat} {ts : List (Option String × Tree)}
    {ds : List (String × Document)}, ofMembers? budget ts = some ds → depthMembers ds ≤ budget
  | _, [], _, h => by cases h; exact Nat.zero_le _
  | _, (_, _) :: _, _, h => by
      obtain ⟨k, -, h⟩ := Option.bind_eq_some_iff.1 h
      obtain ⟨d, hd, h⟩ := Option.bind_eq_some_iff.1 h
      obtain ⟨ds, hds, rfl⟩ := Option.map_eq_some_iff.1 h
      exact Nat.max_le.2 ⟨depth_le_of_ofTree? hd, depthMembers_le_of_ofMembers? hds⟩

end

mutual

/-- Finite numbers are read as finite numbers. -/
theorem allFinite_of_ofTree? : ∀ {budget : Nat} {t : Tree} {d : Document},
    t.AllFinite → ofTree? budget t = some d → d.AllFinite
  | _, .null, _, _, h => by cases h; trivial
  | _, .bool _, _, _, h => by cases h; trivial
  | _, .number n, _, ht, h => by
      obtain ⟨m, hm, rfl⟩ := Option.map_eq_some_iff.1 h
      exact ht m hm
  | _, .string s, _, _, h => by
      obtain ⟨text, -, rfl⟩ := Option.map_eq_some_iff.1 h
      trivial
  | 0, .array _, _, _, h => by cases h
  | 0, .object _, _, _, h => by cases h
  | _ + 1, .array items, _, ht, h => by
      obtain ⟨ds, hds, rfl⟩ := Option.map_eq_some_iff.1 h
      exact allFiniteItems_of_ofItems? ht hds
  | _ + 1, .object members, _, ht, h => by
      obtain ⟨entries, hentries, rfl⟩ := Option.map_eq_some_iff.1 h
      have hfinite := allFiniteMembers_iff.1 (allFiniteMembers_of_ofMembers? ht hentries)
      exact allFiniteMembers_iff.2 fun member hmem =>
        hfinite member (Keyed.mem_of_mem_ofList hmem)

theorem allFiniteItems_of_ofItems? : ∀ {budget : Nat} {ts : List Tree} {ds : List Document},
    Tree.AllFiniteItems ts → ofItems? budget ts = some ds → AllFiniteItems ds
  | _, [], _, _, h => by cases h; trivial
  | _, _ :: _, _, ht, h => by
      obtain ⟨d, hd, h⟩ := Option.bind_eq_some_iff.1 h
      obtain ⟨ds, hds, rfl⟩ := Option.map_eq_some_iff.1 h
      exact ⟨allFinite_of_ofTree? ht.1 hd, allFiniteItems_of_ofItems? ht.2 hds⟩

theorem allFiniteMembers_of_ofMembers? : ∀ {budget : Nat} {ts : List (Option String × Tree)}
    {ds : List (String × Document)}, Tree.AllFiniteMembers ts → ofMembers? budget ts = some ds →
    AllFiniteMembers ds
  | _, [], _, _, h => by cases h; trivial
  | _, (_, _) :: _, _, ht, h => by
      obtain ⟨k, -, h⟩ := Option.bind_eq_some_iff.1 h
      obtain ⟨d, hd, h⟩ := Option.bind_eq_some_iff.1 h
      obtain ⟨ds, hds, rfl⟩ := Option.map_eq_some_iff.1 h
      exact ⟨allFinite_of_ofTree? ht.1 hd, allFiniteMembers_of_ofMembers? ht.2 hds⟩

end

/-! ## Trees of documents -/

mutual

/-- The tree of a document: every leaf has its value. -/
def toTree : Document → Tree
  | .null => .null
  | .bool b => .bool b
  | .number n => .number (some n)
  | .string s => .string (some s)
  | .array items => .array (itemTrees items)
  | .object members => .object (memberTrees members)

/-- The trees of the documents of a list. -/
def itemTrees : List Document → List Tree
  | [] => []
  | d :: rest => toTree d :: itemTrees rest

/-- The members of an object with the trees of their documents. -/
def memberTrees : List (String × Document) → List (Option String × Tree)
  | [] => []
  | (key, d) :: rest => (some key, toTree d) :: memberTrees rest

end

theorem itemTrees_eq_map (items : List Document) : itemTrees items = items.map toTree := by
  induction items with
  | nil => rfl
  | cons d rest ih => rw [itemTrees, ih, List.map_cons]

mutual

/-- A canonical document is read back from its tree when the budget covers its depth. -/
theorem ofTree?_toTree : ∀ {d : Document} {budget : Nat}, d.Canonical → d.depth ≤ budget →
    ofTree? budget d.toTree = some d
  | .null, _, _, _ => by simp [toTree, ofTree?]
  | .bool _, _, _, _ => by simp [toTree, ofTree?]
  | .number _, _, _, _ => by simp [toTree, ofTree?]
  | .string _, _, _, _ => by simp [toTree, ofTree?]
  | .array _, budget + 1, hc, hd => by
      rw [toTree, ofTree?, ofItems?_itemTrees hc (Nat.le_of_succ_le_succ hd)]
      rfl
  | .object _, budget + 1, hc, hd => by
      rw [toTree, ofTree?, ofMembers?_memberTrees hc.2 (Nat.le_of_succ_le_succ hd), Option.map_some,
        Keyed.ofList_of_ascending hc.1]

theorem ofItems?_itemTrees : ∀ {ds : List Document} {budget : Nat}, CanonicalItems ds →
    depthItems ds ≤ budget → ofItems? budget (itemTrees ds) = some ds
  | [], _, _, _ => rfl
  | _ :: _, _, hc, hd => by
      rcases Nat.max_le.1 hd with ⟨hfirst, hrest⟩
      rw [itemTrees, ofItems?, ofTree?_toTree hc.1 hfirst, ofItems?_itemTrees hc.2 hrest]
      rfl

theorem ofMembers?_memberTrees : ∀ {ds : List (String × Document)} {budget : Nat},
    CanonicalMembers ds → depthMembers ds ≤ budget → ofMembers? budget (memberTrees ds) = some ds
  | [], _, _, _ => rfl
  | (_, _) :: _, _, hc, hd => by
      rcases Nat.max_le.1 hd with ⟨hfirst, hrest⟩
      rw [memberTrees, ofMembers?, ofTree?_toTree hc.1 hfirst, ofMembers?_memberTrees hc.2 hrest]
      rfl

end

/-! ## What fits in a budget -/

/-- The documents that are read within a budget from texts, where numbers are finite. -/
structure FitsIn (d : Document) (budget : Nat) : Prop where
  canonical : d.Canonical
  allFinite : d.AllFinite
  depth_le : d.depth ≤ budget

/-- What is read fits in the budget. -/
theorem fitsIn_of_ofTree? {budget : Nat} {t : Tree} {d : Document} (ht : t.AllFinite)
    (h : ofTree? budget t = some d) : d.FitsIn budget :=
  ⟨canonical_of_ofTree? budget t h, allFinite_of_ofTree? ht h, depth_le_of_ofTree? h⟩

/-- A document is read back from its tree exactly within the budgets it fits in. -/
theorem FitsIn.ofTree?_toTree_iff {d e : Document} {large budget : Nat} (h : d.FitsIn large) :
    ofTree? budget d.toTree = some e ↔ d = e ∧ d.FitsIn budget := by
  constructor
  · intro hread
    have hlarger := ofTree?_mono d.toTree (Nat.le_max_left budget d.depth) hread
    rw [ofTree?_toTree h.canonical (Nat.le_max_right budget d.depth)] at hlarger
    cases hlarger
    exact ⟨rfl, h.canonical, h.allFinite, depth_le_of_ofTree? hread⟩
  · rintro ⟨rfl, hfits⟩
    exact ofTree?_toTree hfits.canonical hfits.depth_le

theorem FitsIn.mono {d : Document} {small large : Nat} (h : d.FitsIn small) (hle : small ≤ large) :
    d.FitsIn large :=
  ⟨h.canonical, h.allFinite, Nat.le_trans h.depth_le hle⟩

/-! ## Parts of a document -/

theorem canonicalMembers_iff {members : List (String × Document)} :
    CanonicalMembers members ↔ ∀ member ∈ members, member.2.Canonical := by
  induction members with
  | nil => simp [CanonicalMembers]
  | cons member rest ih => rw [CanonicalMembers, List.forall_mem_cons, ih]

theorem canonicalItems_iff {items : List Document} :
    CanonicalItems items ↔ ∀ d ∈ items, d.Canonical := by
  induction items with
  | nil => simp [CanonicalItems]
  | cons d rest ih => rw [CanonicalItems, List.forall_mem_cons, ih]

variable {d inner : Document} {budget : Nat}

/-- A step leads to a member of an object or to an item of an array. -/
theorem mem_of_step? {segment : String} (h : d.step? segment = some inner) :
    (∃ members, d = .object members ∧ (segment, inner) ∈ members) ∨
      ∃ items, d = .array items ∧ inner ∈ items := by
  cases d with
  | object members => exact .inl ⟨members, rfl, Keyed.mem_of_find? h⟩
  | array items =>
      rcases Option.bind_eq_some_iff.1 h with ⟨i, -, hitem⟩
      exact .inr ⟨items, rfl, List.mem_of_getElem? hitem⟩
  | _ => cases h

/-- What holds of a document and goes down to members and items holds of all that is found in
it. -/
theorem holds_of_resolve? (P : Document → Prop)
    (hmembers : ∀ members, P (.object members) → ∀ member ∈ members, P member.2)
    (hitems : ∀ items, P (.array items) → ∀ item ∈ items, P item)
    (h : P d) {path : String} (hfound : d.resolve? path = some inner) : P inner := by
  have hstep : ∀ {d inner : Document} {segment : String}, P d →
      d.step? segment = some inner → P inner := by
    intro d inner segment h hstep
    rcases mem_of_step? hstep with ⟨members, rfl, hmem⟩ | ⟨items, rfl, hmem⟩
    · exact hmembers members h _ hmem
    · exact hitems items h _ hmem
  have hwalk : ∀ {segments : List String} {d : Document}, P d →
      d.walk? segments = some inner → P inner := by
    intro segments
    induction segments with
    | nil =>
        intro d h hwalk
        cases hwalk
        exact h
    | cons segment rest ih =>
        intro d h hwalk
        rcases Option.bind_eq_some_iff.1 hwalk with ⟨next, hnext, hrest⟩
        exact ih (hstep h hnext) hrest
  unfold Document.resolve? at hfound
  split at hfound
  · cases hfound
    exact h
  · exact hwalk h hfound

/-- What a path leads to in a document of finite numbers has finite numbers. -/
theorem AllFinite.resolve? (h : d.AllFinite) {path : String}
    (hfound : d.resolve? path = some inner) : inner.AllFinite :=
  holds_of_resolve? AllFinite (fun _ h => allFiniteMembers_iff.1 h)
    (fun _ h => allFiniteItems_iff.1 h) h hfound

/-- What is found in a document fits where the document does. -/
theorem FitsIn.resolve? (h : d.FitsIn budget) {path : String}
    (hfound : d.resolve? path = some inner) : inner.FitsIn budget := by
  refine holds_of_resolve? (fun d => d.FitsIn budget) ?_ ?_ h hfound
  · intro members h member hmem
    exact ⟨canonicalMembers_iff.1 h.canonical.2 _ hmem,
      allFiniteMembers_iff.1 h.allFinite _ hmem,
      depthMembers_le_iff.1 (Nat.le_of_succ_le h.depth_le) _ hmem⟩
  · intro items h item hmem
    exact ⟨canonicalItems_iff.1 h.canonical _ hmem, allFiniteItems_iff.1 h.allFinite _ hmem,
      depthItems_le_iff.1 (Nat.le_of_succ_le h.depth_le) _ hmem⟩

end Document

end TriggerGraph
