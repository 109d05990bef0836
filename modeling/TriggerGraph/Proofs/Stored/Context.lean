import TriggerGraph.Proofs.Stored.Fields
import TriggerGraph.Stored.Context

/-!
# Contexts and snapshots that are written and read

A budget is spent level by level: a context takes one for itself, a snapshot one, an entry one,
and what is left is for the values.  A context or snapshot that was read within some budget is
read back from what it is written as, exactly within the budgets that its values fit in.

Main results:

- Theorem `Snapshot.fitsIn_of_ofTree?` and `Context.fitsIn_of_ofTree?`: what is read fits in the
  budget.
- Theorem `Snapshot.FitsIn.readsBack` and `Context.FitsIn.readsBack`: what is written is read back
  exactly within the budgets it fits in.
-/

namespace TriggerGraph

open Json (Tree)
open Stored

/-! ## Values -/

/-- The values that are read within a budget from texts. -/
structure Value.FitsIn (v : Value) (budget : Nat) : Prop where
  toDocument : v.toDocument.FitsIn budget
  ofDocument_toDocument : ofDocument v.toDocument = v

/-- The value of a document fits where the document does. -/
theorem Value.fitsIn_ofDocument {d : Document} {budget : Nat} (h : d.FitsIn budget) :
    (ofDocument d).FitsIn budget := by
  have hd := h.allFinite.toDocument_ofDocument
  exact ⟨hd.symm ▸ h, congrArg ofDocument hd⟩

theorem Value.FitsIn.mono {v : Value} {small large : Nat} (h : v.FitsIn small)
    (hle : small ≤ large) : v.FitsIn large :=
  ⟨h.toDocument.mono hle, h.ofDocument_toDocument⟩

/-- Only a null is written as a null, among values that fit. -/
theorem Value.FitsIn.toDocument_ne_null {v : Value} {budget : Nat} (h : v.FitsIn budget)
    (hnull : v ≠ .null) : v.toDocument ≠ .null := by
  intro hdocument
  have hread := h.ofDocument_toDocument
  rw [hdocument] at hread
  exact hnull hread.symm

/-- A written value is read back exactly within the budgets it fits in. -/
theorem Value.FitsIn.readsBack {v : Value} {large : Nat} (h : v.FitsIn large) (budget : Nat) :
    ReadsBack (fun v : Value => v.toDocument.toTree)
      (fun t => (Document.ofTree? budget t).map ofDocument) (fun v => v.FitsIn budget) v := by
  intro w
  rw [Option.map_eq_some_iff]
  constructor
  · rintro ⟨d, hd, rfl⟩
    rcases h.toDocument.ofTree?_toTree_iff.1 hd with ⟨rfl, hfits⟩
    exact ⟨h.ofDocument_toDocument.symm, hfits, h.ofDocument_toDocument⟩
  · rintro ⟨rfl, hfits⟩
    exact ⟨v.toDocument, h.toDocument.ofTree?_toTree_iff.2 ⟨rfl, hfits.toDocument⟩,
      h.ofDocument_toDocument⟩

/-! ## Entries -/

namespace SnapshotEntry

variable {entry other : SnapshotEntry} {budget large : Nat}

/-- The entries whose value, if there is one, fits in a budget and is no null. -/
def FitsIn (entry : SnapshotEntry) (budget : Nat) : Prop :=
  ∀ v ∈ entry.value, v ≠ .null ∧ v.FitsIn budget

/-- The members that an entry is written with. -/
def members (entry : SnapshotEntry) : List (String × Document) :=
  [("value", (entry.value.map Value.toDocument).getD .null), ("timestamp", signed entry.timestamp)]

theorem toDocument_eq (entry : SnapshotEntry) :
    entry.toDocument = Document.ofMembers entry.members := by
  rcases entry with ⟨value, timestamp⟩
  cases value <;> rfl

theorem nodup_members (entry : SnapshotEntry) : (entry.members.map (·.1)).Nodup := by
  simp [members]

/-- A written entry is read as its value and its timestamp. -/
theorem ofTree?_toTree (entry : SnapshotEntry) (budget : Nat) :
    ofTree? (budget + 1) entry.toDocument.toTree =
      (nullable? (value? budget) (entry.value.map fun v => v.toDocument.toTree)).map
        fun value => ⟨value, entry.timestamp⟩ := by
  rcases exists_fields_of_ofMembers entry.nodup_members with ⟨trees, fields, htree, hfields, hperm⟩
  have hvalue : field? ["value"] (entry.members.map written) =
      some (some ((entry.value.map fun v => v.toDocument.toTree).getD .null)) := by
    rcases entry with ⟨value, timestamp⟩
    cases value <;> rfl
  have htimestamp : field? ["timestamp"] (entry.members.map written) =
      some (some (signed entry.timestamp).toTree) := rfl
  have hsigned : required? signed? (some (signed entry.timestamp).toTree) =
      some entry.timestamp := signed?_ofInt64 entry.timestamp
  rw [toDocument_eq, htree, ofTree?, hfields]
  simp only [bind, Option.bind_some, field?_perm hperm, hvalue, htimestamp, hsigned,
    nullable?_getD_null]
  exact Option.map_eq_bind.symm

/-- A written entry is read back exactly within the budgets it fits in. -/
theorem FitsIn.readsBack (h : entry.FitsIn large) (budget : Nat) :
    ReadsBack (fun entry : SnapshotEntry => entry.toDocument.toTree) (ofTree? (budget + 1))
      (fun entry => entry.FitsIn budget) entry := by
  have hnull : ∀ v ∈ entry.value, v.toDocument.toTree ≠ .null := fun v hv =>
    Document.toTree_ne_null ((h v hv).2.toDocument_ne_null (h v hv).1)
  have hvalue := readsBack_nullable? hnull fun v hv => (h v hv).2.readsBack budget
  intro other
  rw [ofTree?_toTree, Option.map_eq_some_iff]
  constructor
  · rintro ⟨value, hread, rfl⟩
    rcases (hvalue value).1 hread with ⟨rfl, hfits⟩
    exact ⟨rfl, fun v hv => ⟨(h v hv).1, hfits v hv⟩⟩
  · rintro ⟨rfl, hfits⟩
    exact ⟨entry.value, (hvalue _).2 ⟨rfl, fun v hv => (hfits v hv).2⟩, rfl⟩

/-- A value that is read fits in the budget and is no null. -/
theorem fitsIn_of_nullable? {field : Option Tree} {value : Option Value}
    (ht : ∀ t ∈ field, t.AllFinite) (h : nullable? (value? budget) field = some value) :
    ∀ v ∈ value, v ≠ .null ∧ v.FitsIn budget := by
  rintro v rfl
  rcases exists_of_nullable? h with ⟨t, rfl, hnull, hread⟩
  rcases Option.map_eq_some_iff.1 hread with ⟨d, hd, rfl⟩
  have hne := Document.ne_null_of_ofTree? hnull hd
  refine ⟨?_, Value.fitsIn_ofDocument (Document.fitsIn_of_ofTree? (ht t rfl) hd)⟩
  cases d <;> simp_all [Value.ofDocument]

/-- An entry that is read fits in the budget. -/
theorem fitsIn_of_ofTree? {t : Tree} (ht : t.AllFinite)
    (h : ofTree? (budget + 1) t = some entry) : entry.FitsIn budget := by
  unfold ofTree? at h
  split at h
  · rename_i members heq
    cases heq
    rcases Option.bind_eq_some_iff.1 h with ⟨fields, hfields, h⟩
    rcases Option.bind_eq_some_iff.1 h with ⟨field, hfield, h⟩
    rcases Option.bind_eq_some_iff.1 h with ⟨value, hvalue, h⟩
    rcases Option.bind_eq_some_iff.1 h with ⟨stamp, -, h⟩
    rcases Option.bind_eq_some_iff.1 h with ⟨timestamp, -, h⟩
    cases h
    refine fitsIn_of_nullable? ?_ hvalue
    rintro found rfl
    exact allFinite_of_field? ht hfields hfield
  · rename_i value timestamp heq
    cases heq
    rcases Option.bind_eq_some_iff.1 h with ⟨value, hvalue, h⟩
    rcases Option.bind_eq_some_iff.1 h with ⟨timestamp, -, h⟩
    cases h
    refine fitsIn_of_nullable? ?_ hvalue
    rintro found ⟨⟩
    exact ht.1
  · cases h

theorem FitsIn.allFinite_toDocument (h : entry.FitsIn budget) : entry.toDocument.AllFinite := by
  rw [toDocument_eq]
  refine allFinite_ofMembers (List.forall_mem_cons.2 ⟨?_, List.forall_mem_singleton.2 rfl⟩)
  cases hvalue : entry.value with
  | none => trivial
  | some v => exact (h v hvalue).2.toDocument.allFinite

theorem FitsIn.mono (h : entry.FitsIn budget) (hle : budget ≤ large) : entry.FitsIn large :=
  fun v hv => ⟨(h v hv).1, (h v hv).2.mono hle⟩

end SnapshotEntry

/-! ## Snapshots -/

namespace Snapshot

variable {snapshot other : Snapshot} {budget large : Nat}

/-- The snapshots whose entries fit in a budget. -/
def FitsIn (snapshot : Snapshot) (budget : Nat) : Prop :=
  ∀ entry ∈ snapshot.entries, entry.2.FitsIn budget

/-- The entries of a snapshot make it again, in whatever order they are given. -/
theorem ofList_of_perm {entries : List (String × SnapshotEntry)}
    (h : entries.Perm snapshot.entries) : ofList entries = snapshot := by
  have hsame := Keyed.ofList_of_perm snapshot.ascending h
  simp only [ofList, hsame]

/-- A snapshot that is read fits in the budget. -/
theorem fitsIn_of_ofTree? {t : Tree} (ht : t.AllFinite)
    (h : ofTree? (budget + 2) t = some snapshot) : snapshot.FitsIn budget := by
  unfold ofTree? at h
  split at h
  · rename_i members heq
    cases heq
    rcases Option.bind_eq_some_iff.1 h with ⟨fields, hfields, h⟩
    rcases Option.bind_eq_some_iff.1 h with ⟨entries, hentries, h⟩
    cases h
    intro entry hentry
    rcases exists_mem_of_mapM hentries entry (Keyed.mem_of_mem_ofList hentry) with
      ⟨field, hfield, hread⟩
    rcases Option.map_eq_some_iff.1 hread with ⟨found, hfound, rfl⟩
    exact SnapshotEntry.fitsIn_of_ofTree? (allFinite_of_mem_fields? ht hfields field hfield) hfound
  · cases h

variable [EntryOrder]

/-- A written snapshot is read entry by entry. -/
theorem ofTree?_toTree (snapshot : Snapshot) (budget : Nat) :
    ofTree? (budget + 1) snapshot.toDocument.toTree =
      (((EntryOrder.arrange snapshot).map fun entry =>
        (entry.1, entry.2.toDocument.toTree)).mapM fun field =>
          (SnapshotEntry.ofTree? budget field.2).map fun entry => (field.1, entry)).map ofList := by
  have hfields := fields?_memberTrees
    ((EntryOrder.arrange snapshot).map fun entry => (entry.1, entry.2.toDocument))
  rw [List.map_map] at hfields
  rw [toDocument, Document.toTree, ofTree?, hfields]
  exact Option.map_eq_bind.symm

/-- A written snapshot is read back exactly within the budgets it fits in. -/
theorem FitsIn.readsBack (h : snapshot.FitsIn large) (budget : Nat) :
    ReadsBack (fun snapshot : Snapshot => snapshot.toDocument.toTree) (ofTree? (budget + 2))
      (fun snapshot => snapshot.FitsIn budget) snapshot := by
  have hperm := EntryOrder.arrange_perm snapshot
  have hentries := readsBack_mapM fun entry hentry =>
    ((h entry (hperm.mem_iff.1 hentry)).readsBack budget).keyed entry.1
  intro other
  rw [ofTree?_toTree, Option.map_eq_some_iff]
  constructor
  · rintro ⟨entries, hread, rfl⟩
    rcases (hentries entries).1 hread with ⟨rfl, hfits⟩
    exact ⟨(ofList_of_perm hperm).symm, fun entry hmem => hfits entry (hperm.mem_iff.2 hmem)⟩
  · rintro ⟨rfl, hfits⟩
    have hall : ∀ entry ∈ EntryOrder.arrange snapshot, entry.2.FitsIn budget :=
      fun entry hmem => hfits entry (hperm.mem_iff.1 hmem)
    exact ⟨EntryOrder.arrange snapshot, (hentries _).2 ⟨rfl, hall⟩, ofList_of_perm hperm⟩

theorem toTree_ne_null (snapshot : Snapshot) : snapshot.toDocument.toTree ≠ .null := by
  rintro ⟨⟩

theorem FitsIn.allFinite_toDocument (h : snapshot.FitsIn budget) :
    snapshot.toDocument.AllFinite := by
  refine Document.allFiniteMembers_iff.2 fun member hmem => ?_
  rcases List.mem_map.1 hmem with ⟨entry, hentry, rfl⟩
  exact (h entry ((EntryOrder.arrange_perm snapshot).mem_iff.1 hentry)).allFinite_toDocument

end Snapshot

/-! ## Contexts -/

namespace Context

variable {context other : Context} {budget large : Nat}

/-- The contexts whose values fit in a budget: an entry of the snapshot lies two levels deeper
than the source. -/
structure FitsIn (context : Context) (budget : Nat) : Prop where
  source : ∀ d ∈ context.source, d ≠ .null ∧ d.FitsIn (budget + 2)
  snapshot : ∀ s ∈ context.snapshot, s.FitsIn budget

theorem FitsIn.mono (h : context.FitsIn budget) (hle : budget ≤ large) : context.FitsIn large where
  source d hd := ⟨(h.source d hd).1, (h.source d hd).2.mono (Nat.add_le_add_right hle 2)⟩
  snapshot s hs := fun entry hentry => (h.snapshot s hs entry hentry).mono hle

/-- A context that is read from its two fields fits in the budget. -/
theorem fitsIn_of_ofParts? {source snapshot : Option Tree} (hsource : ∀ t ∈ source, t.AllFinite)
    (hsnapshot : ∀ t ∈ snapshot, t.AllFinite)
    (h : ofParts? (budget + 2) source snapshot = some context) : context.FitsIn budget := by
  rcases Option.bind_eq_some_iff.1 h with ⟨document, hdocument, h⟩
  rcases Option.bind_eq_some_iff.1 h with ⟨entries, hentries, h⟩
  cases h
  constructor
  · rintro d rfl
    rcases exists_of_nullable? hdocument with ⟨t, rfl, hnull, hread⟩
    exact ⟨Document.ne_null_of_ofTree? hnull hread,
      Document.fitsIn_of_ofTree? (hsource t rfl) hread⟩
  · rintro s rfl
    rcases exists_of_nullable? hentries with ⟨t, rfl, -, hread⟩
    exact Snapshot.fitsIn_of_ofTree? (hsnapshot t rfl) hread

/-- A context that is read fits in the budget. -/
theorem fitsIn_of_ofTree? {t : Tree} (ht : t.AllFinite)
    (h : ofTree? (budget + 3) t = some context) : context.FitsIn budget := by
  unfold ofTree? at h
  split at h
  · rename_i members heq
    cases heq
    rcases Option.bind_eq_some_iff.1 h with ⟨fields, hfields, h⟩
    rcases Option.bind_eq_some_iff.1 h with ⟨source, hsource, h⟩
    rcases Option.bind_eq_some_iff.1 h with ⟨snapshot, hsnapshot, h⟩
    refine fitsIn_of_ofParts? ?_ ?_ h
    · rintro t rfl
      exact allFinite_of_field? ht hfields hsource
    · rintro t rfl
      exact allFinite_of_field? ht hfields hsnapshot
  · rename_i items heq
    cases heq
    split at h
    · cases h
    · have hitems : ∀ i : Nat, ∀ t ∈ items[i]?, Tree.AllFinite t := fun i t hmem =>
        ht.allFinite t (List.mem_of_getElem? hmem)
      exact fitsIn_of_ofParts? (hitems 0) (hitems 1) h
  · cases h

variable [EntryOrder]

/-- The members that a context is written with. -/
def members (context : Context) : List (String × Document) :=
  (match context.source with
    | some source => [("source", source)]
    | none => [])
    ++ match context.snapshot with
      | some snapshot => [("__snapshot", snapshot.toDocument)]
      | none => []

theorem nodup_members (context : Context) : (context.members.map (·.1)).Nodup := by
  rcases context with ⟨source, snapshot⟩
  cases source <;> cases snapshot <;> simp [members]

/-- A written context is read as its source and its snapshot. -/
theorem ofTree?_toTree (context : Context) (budget : Nat) :
    ofTree? (budget + 1) context.toDocument.toTree =
      ofParts? budget (context.source.map Document.toTree)
        (context.snapshot.map fun snapshot => snapshot.toDocument.toTree) := by
  rcases exists_fields_of_ofMembers context.nodup_members with
    ⟨trees, fields, htree, hfields, hperm⟩
  have hsource : field? ["source"] (context.members.map written) =
      some (context.source.map Document.toTree) := by
    rcases context with ⟨source, snapshot⟩
    cases source <;> cases snapshot <;> rfl
  have hsnapshot : field? ["__snapshot"] (context.members.map written) =
      some (context.snapshot.map fun snapshot => snapshot.toDocument.toTree) := by
    rcases context with ⟨source, snapshot⟩
    cases source <;> cases snapshot <;> rfl
  rw [show context.toDocument = Document.ofMembers context.members from rfl, htree, ofTree?,
    hfields]
  simp only [bind, Option.bind_some, field?_perm hperm, hsource, hsnapshot]

/-- A written context is read back exactly within the budgets it fits in. -/
theorem FitsIn.readsBack (h : context.FitsIn large) (budget : Nat) :
    ReadsBack (fun context : Context => context.toDocument.toTree) (ofTree? (budget + 3))
      (fun context => context.FitsIn budget) context := by
  have hsource := readsBack_nullable? (fun d hd => Document.toTree_ne_null (h.source d hd).1)
    fun d hd => readsBack_document (h.source d hd).2 (budget + 2)
  have hsnapshot := readsBack_nullable? (fun s _ => Snapshot.toTree_ne_null s)
    fun s hs => (h.snapshot s hs).readsBack budget
  intro other
  rw [ofTree?_toTree, ofParts?]
  simp only [bind, Option.bind_eq_some_iff, pure, Option.some.injEq, hsource _, hsnapshot _]
  constructor
  · rintro ⟨source, ⟨rfl, hd⟩, snapshot, ⟨rfl, hs⟩, rfl⟩
    exact ⟨rfl, fun d hmem => ⟨(h.source d hmem).1, hd d hmem⟩, hs⟩
  · rintro ⟨rfl, hfits⟩
    exact ⟨_, ⟨rfl, fun d hd => (hfits.source d hd).2⟩, _, ⟨rfl, hfits.snapshot⟩, rfl⟩

theorem FitsIn.allFinite_toDocument (h : context.FitsIn budget) :
    context.toDocument.AllFinite := by
  refine allFinite_ofMembers fun member hmem => ?_
  rcases context with ⟨source, snapshot⟩
  rcases List.mem_append.1 hmem with hmem | hmem
  · cases source with
    | none => cases hmem
    | some d =>
        rw [List.mem_singleton.1 hmem]
        exact (h.source d rfl).2.allFinite
  · cases snapshot with
    | none => cases hmem
    | some s =>
        rw [List.mem_singleton.1 hmem]
        exact (h.snapshot s rfl).allFinite_toDocument

end Context

end TriggerGraph
