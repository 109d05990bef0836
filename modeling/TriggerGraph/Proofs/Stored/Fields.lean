import Mathlib.Data.List.Perm.Basic
import TriggerGraph.Proofs.Document.Tree
import TriggerGraph.Stored.Fields

/-!
# Fields that are written and read

A stored object is written with its fields in key order and read field by field.  A field is found
under its name wherever it stands, since no name is written twice, so readers see the fields as
if they stood in the order in which they are given.

Main results:

- Theorem `field?_perm`: the order of the fields does not matter to a reader.
- Theorem `exists_fields_of_ofMembers`: the fields of a written object are those it was made of.
- Theorems `readsBack_mapM` and `readsBack_nullable?`: a list is read back when its items are, and
  a field that may be null when what it holds is.
-/

namespace TriggerGraph

open Json (Tree)

/-- Only a null has the tree of a null. -/
theorem Document.toTree_ne_null {d : Document} (h : d ≠ .null) : d.toTree ≠ .null := by
  intro htree
  cases d <;> simp_all [toTree]

/-- Only the tree of a null is read as a null. -/
theorem Document.ne_null_of_ofTree? {budget : Nat} {t : Tree} {d : Document} (ht : t ≠ .null)
    (h : ofTree? budget t = some d) : d ≠ .null := by
  rintro rfl
  cases t with
  | null => exact ht rfl
  | array items => cases budget <;> simp [ofTree?] at h
  | object members => cases budget <;> simp [ofTree?] at h
  | _ => simp [ofTree?] at h

namespace Stored

/-! ## Reading back -/

variable {α β : Type}

/-- What is written is read back, and as nothing else, exactly when it fits. -/
def ReadsBack (write : α → β) (read : β → Option α) (Fits : α → Prop) (a : α) : Prop :=
  ∀ b, read (write a) = some b ↔ a = b ∧ Fits a

/-- A document is read back from its tree exactly within the budgets it fits in. -/
theorem readsBack_document {d : Document} {large : Nat} (h : d.FitsIn large) (budget : Nat) :
    ReadsBack Document.toTree (Document.ofTree? budget) (fun d => d.FitsIn budget) d :=
  fun _ => h.ofTree?_toTree_iff

section

variable {write : α → β} {read : β → Option α} {Fits : α → Prop}

/-- A list is read back when its items are. -/
theorem readsBack_mapM {items : List α} (h : ∀ a ∈ items, ReadsBack write read Fits a) :
    ReadsBack (List.map write) (List.mapM read) (fun items => ∀ a ∈ items, Fits a) items := by
  intro out
  induction items generalizing out with
  | nil => simp [eq_comm]
  | cons a rest ih =>
      rw [List.forall_mem_cons] at h
      have hrest := ih h.2
      have hfirst := h.1
      unfold ReadsBack at hfirst
      rw [List.map_cons, List.mapM_cons]
      simp only [bind, Option.bind_eq_some_iff, pure, Option.some.injEq, hfirst, hrest]
      constructor
      · rintro ⟨b, ⟨rfl, ha⟩, bs, ⟨rfl, hbs⟩, rfl⟩
        exact ⟨rfl, List.forall_mem_cons.2 ⟨ha, hbs⟩⟩
      · rintro ⟨rfl, hfits⟩
        rw [List.forall_mem_cons] at hfits
        exact ⟨a, ⟨rfl, hfits.1⟩, rest, ⟨rfl, hfits.2⟩, rfl⟩

/-- An item is read back with the key it stands at. -/
theorem ReadsBack.keyed {a : α} (h : ReadsBack write read Fits a) (key : String) :
    ReadsBack (fun entry : String × α => (entry.1, write entry.2))
      (fun field => (read field.2).map fun b => (field.1, b)) (fun entry => Fits entry.2)
      (key, a) := by
  rintro ⟨other, b⟩
  rw [Option.map_eq_some_iff]
  constructor
  · rintro ⟨found, hfound, heq⟩
    cases heq
    rcases (h b).1 hfound with ⟨rfl, hfits⟩
    exact ⟨rfl, hfits⟩
  · rintro ⟨heq, hfits⟩
    cases heq
    exact ⟨a, (h a).2 ⟨rfl, hfits⟩, rfl⟩

end

/-! ## Lists of items -/

/-- Each item that is read comes from one of the items there are. -/
theorem exists_mem_of_mapM {read : α → Option β} {items : List α} {out : List β}
    (h : items.mapM read = some out) : ∀ b ∈ out, ∃ a ∈ items, read a = some b := by
  induction items generalizing out with
  | nil =>
      cases h
      simp
  | cons a rest ih =>
      rw [List.mapM_cons] at h
      simp only [bind, Option.bind_eq_some_iff, pure, Option.some.injEq] at h
      rcases h with ⟨b, hb, bs, hbs, rfl⟩
      rintro other hother
      rcases List.mem_cons.1 hother with rfl | hother
      · exact ⟨a, List.mem_cons_self, hb⟩
      · rcases ih hbs other hother with ⟨found, hfound, hread⟩
        exact ⟨found, List.mem_cons_of_mem a hfound, hread⟩

/-- A list is read from what its items are written as, if each item is. -/
theorem mapM_map_eq_some {write : α → β} {read : β → Option α} {items : List α}
    (h : ∀ a ∈ items, read (write a) = some a) : (items.map write).mapM read = some items := by
  induction items with
  | nil => rfl
  | cons a rest ih =>
      rw [List.forall_mem_cons] at h
      rw [List.map_cons, List.mapM_cons, h.1, ih h.2]
      rfl

/-- A list can be read when each of its items can. -/
theorem exists_mapM {read : α → Option β} {items : List α}
    (h : ∀ a ∈ items, ∃ b, read a = some b) : ∃ out, items.mapM read = some out := by
  induction items with
  | nil => exact ⟨[], rfl⟩
  | cons a rest ih =>
      rw [List.forall_mem_cons] at h
      rcases h.1 with ⟨b, hb⟩
      rcases ih h.2 with ⟨bs, hbs⟩
      exact ⟨b :: bs, by rw [List.mapM_cons, hb, hbs]; rfl⟩

/-- Items that are read are those of an array. -/
theorem exists_of_items? {read : Nat → Tree → Option α} {budget : Nat} {t : Tree} {out : List α}
    (h : items? read (budget + 1) t = some out) :
    ∃ items, t = .array items ∧ items.mapM (read budget) = some out := by
  cases t with
  | array items => exact ⟨items, rfl, h⟩
  | _ => cases h

/-! ## Fields of trees -/

variable {names : List String} {fields other : Fields}

/-- The order of the fields does not matter to a reader. -/
theorem field?_perm (h : fields.Perm other) : field? names fields = field? names other := by
  have hfilter := h.filter fun field => names.contains field.1
  unfold field?
  generalize fields.filter (fun field => names.contains field.1) = found at hfilter ⊢
  generalize other.filter (fun field => names.contains field.1) = known at hfilter ⊢
  match found, known with
  | [], known => rw [List.nil_perm.1 hfilter]
  | [field], known => rw [List.singleton_perm.1 hfilter]
  | _ :: _ :: _, [] => exact absurd hfilter.length_eq (by simp)
  | _ :: _ :: _, [_] => exact absurd hfilter.length_eq (by simp)
  | _ :: _ :: _, _ :: _ :: _ => rfl

theorem mem_of_field? {t : Tree} (h : field? names fields = some (some t)) :
    ∃ name, (name, t) ∈ fields := by
  unfold field? at h
  split at h
  · cases h
  · rename_i field hfilter
    cases h
    have hmem : field ∈ fields.filter fun field => names.contains field.1 := by
      rw [hfilter]
      exact List.mem_singleton_self field
    exact ⟨field.1, List.mem_of_mem_filter hmem⟩
  · cases h

/-- The fields of an object of finite numbers are trees of finite numbers. -/
theorem allFinite_of_mem_fields? {members : List (Option String × Tree)}
    (hfinite : Tree.AllFiniteMembers members) (h : fields? members = some fields) :
    ∀ field ∈ fields, field.2.AllFinite := by
  induction members generalizing fields with
  | nil =>
      cases h
      simp
  | cons member rest ih =>
      rw [fields?, List.mapM_cons] at h
      simp only [bind, Option.bind_eq_some_iff, pure, Option.some.injEq,
        Option.map_eq_some_iff] at h
      rcases h with ⟨field, ⟨key, -, rfl⟩, more, hmore, rfl⟩
      rw [List.forall_mem_cons]
      exact ⟨hfinite.1, ih hfinite.2 hmore⟩

/-- A field of an object of finite numbers has finite numbers. -/
theorem allFinite_of_field? {members : List (Option String × Tree)} {t : Tree}
    (hfinite : Tree.AllFiniteMembers members) (hfields : fields? members = some fields)
    (h : field? names fields = some (some t)) : t.AllFinite := by
  rcases mem_of_field? h with ⟨name, hmem⟩
  exact allFinite_of_mem_fields? hfinite hfields _ hmem

/-! ## Fields of written objects -/

/-- A field as it is written. -/
def written (member : String × Document) : String × Tree := (member.1, member.2.toTree)

/-- Written members are the fields of their object. -/
theorem fields?_memberTrees (members : List (String × Document)) :
    fields? (Document.memberTrees members) = some (members.map written) := by
  induction members with
  | nil => rfl
  | cons member rest ih =>
      rw [fields?] at ih
      rw [Document.memberTrees, fields?, List.mapM_cons, ih]
      rfl

/-- The fields of a written object are those it was made of. -/
theorem exists_fields_of_ofMembers {members : List (String × Document)}
    (h : (members.map (·.1)).Nodup) :
    ∃ trees fields, (Document.ofMembers members).toTree = .object trees ∧
      fields? trees = some fields ∧ fields.Perm (members.map written) :=
  ⟨_, _, rfl, fields?_memberTrees _, (Keyed.perm_ofList h).map written⟩

/-- What an object is made of is finite, and so is the object. -/
theorem allFinite_ofMembers {members : List (String × Document)}
    (h : ∀ member ∈ members, member.2.AllFinite) : (Document.ofMembers members).AllFinite :=
  Document.allFiniteMembers_iff.2 fun member hmem => h member (Keyed.mem_of_mem_ofList hmem)

/-! ## Fields that may be null -/

theorem nullable?_some {read : Tree → Option α} {t : Tree} (h : t ≠ .null) :
    nullable? read (some t) = (read t).map some := by
  cases t <;> first | exact absurd rfl h | rfl

/-- A field that may be null is read back when what it holds is. -/
theorem readsBack_nullable? {write : α → Tree} {read : Tree → Option α} {Fits : α → Prop}
    {value : Option α} (hnull : ∀ a ∈ value, write a ≠ .null)
    (h : ∀ a ∈ value, ReadsBack write read Fits a) :
    ReadsBack (Option.map write) (nullable? read) (fun value => ∀ a ∈ value, Fits a) value := by
  intro out
  cases value with
  | none => simp [nullable?]
  | some a =>
      rw [Option.map_some, nullable?_some (hnull a rfl), Option.map_eq_some_iff]
      constructor
      · rintro ⟨b, hb, rfl⟩
        rcases (h a rfl b).1 hb with ⟨rfl, hfits⟩
        exact ⟨rfl, by rintro b ⟨⟩; exact hfits⟩
      · rintro ⟨rfl, hfits⟩
        exact ⟨a, (h a rfl a).2 ⟨rfl, hfits a rfl⟩, rfl⟩

/-- A null stands for a field that is not there. -/
theorem nullable?_getD_null (read : Tree → Option α) (field : Option Tree) :
    nullable? read (some (field.getD .null)) = nullable? read field := by
  cases field <;> rfl

/-- What is read from a field that may be null is read from a tree that is not. -/
theorem exists_of_nullable? {read : Tree → Option α} {field : Option Tree} {a : α}
    (h : nullable? read field = some (some a)) :
    ∃ t, field = some t ∧ t ≠ .null ∧ read t = some a := by
  unfold nullable? at h
  split at h
  · cases h
  · cases h
  · rename_i t hnull
    rcases Option.map_eq_some_iff.1 h with ⟨found, hfound, heq⟩
    cases heq
    exact ⟨t, rfl, hnull, hfound⟩

end Stored

end TriggerGraph
