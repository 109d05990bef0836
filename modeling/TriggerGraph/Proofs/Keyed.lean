import Mathlib.Data.List.Induction
import Mathlib.Data.List.Sort
import TriggerGraph.Change

/-!
# Look-up in built maps

A map built by insertions is known by what is found in it: at a key the last insertion
counts.  In entries in key order, what is found at a key is the only entry there, so a
union finds what either side holds, the newer side first.  Snapshots that hold the same
entry wherever two of them hold one can be put together in any order.

Main results:

- Theorems `find?_foldl_insert_of_mem` and `find?_foldl_insert_of_forall_ne`: what is
  found after insertions of which those at one key agree.
- Theorem `find?_union`: what is found in a union.
- Theorem `perm_ofList`: entries without a repeated key are all kept, in key order.
- Theorem `Snapshot.ext_find?`: a snapshot is known by what is found in it.
- Theorem `Snapshot.find?_merged_iff`: what is found in several snapshots that agree.
-/

namespace TriggerGraph

namespace Keyed

variable {α : Type} {key : String} {value : α} {entries left right map : List (String × α)}

/-! ## Entries in key order -/

theorem mem_of_find? (h : find? key entries = some value) : (key, value) ∈ entries := by
  induction entries with
  | nil => cases h
  | cons head rest ih =>
      unfold find? at h
      split at h
      · rename_i hkey
        cases h
        exact hkey ▸ List.mem_cons_self
      · exact List.mem_cons_of_mem head (ih h)

/-- In key order the entry at a key is the one that is found there. -/
theorem find?_eq_some_iff_mem (hasc : Ascending entries) :
    find? key entries = some value ↔ (key, value) ∈ entries := by
  refine ⟨mem_of_find?, fun hmem => ?_⟩
  induction entries with
  | nil => cases hmem
  | cons head rest ih =>
      rcases List.pairwise_cons.1 hasc with ⟨hhead, hrest⟩
      rcases List.mem_cons.1 hmem with rfl | hmem
      · simp [find?]
      · have hne : ¬ key = head.1 := fun heq =>
          String.lt_irrefl head.1 (heq ▸ hhead (key, value) hmem)
        rw [find?, if_neg hne]
        exact ih hrest hmem

/-- Nothing is found at a key that no entry has. -/
theorem find?_eq_none_iff : find? key entries = none ↔ ∀ entry ∈ entries, entry.1 ≠ key := by
  induction entries with
  | nil => simp
  | cons head rest ih =>
      rw [find?, List.forall_mem_cons, ← ih]
      by_cases hkey : key = head.1
      · simp [hkey]
      · simp [hkey, Ne.symm hkey]

/-- Entries in key order are known by what is found in them. -/
theorem eq_of_find?_eq (hleft : Ascending left) (hright : Ascending right)
    (h : ∀ key, find? key left = find? key right) : left = right := by
  have hmem : ∀ entry, entry ∈ left ↔ entry ∈ right := by
    rintro ⟨key, value⟩
    rw [← find?_eq_some_iff_mem hleft, ← find?_eq_some_iff_mem hright, h key]
  have hirrefl : Std.Irrefl fun a b : String × α => a.1 < b.1 :=
    ⟨fun a => String.lt_irrefl a.1⟩
  have hantisymm : Std.Antisymm fun a b : String × α => a.1 < b.1 :=
    ⟨fun a b hab hba => absurd hba (String.lt_asymm hab)⟩
  exact List.Pairwise.eq_of_mem_iff hleft hright hmem

/-! ## Insertions one after the other -/

/-- Insertions at other keys change nothing at a key. -/
theorem find?_foldl_insert_of_forall_ne (h : ∀ entry ∈ entries, entry.1 ≠ key) :
    find? key (entries.foldl (fun m e => insert e.1 e.2 m) map) = find? key map := by
  induction entries generalizing map with
  | nil => rfl
  | cons head rest ih =>
      rw [List.forall_mem_cons] at h
      rw [List.foldl_cons, ih h.2, find?_insert_of_ne head.2 map (Ne.symm h.1)]

/-- When all insertions at a key agree, what they insert is found. -/
theorem find?_foldl_insert_of_mem (hmem : (key, value) ∈ entries)
    (h : ∀ entry ∈ entries, entry.1 = key → entry.2 = value) :
    find? key (entries.foldl (fun m e => insert e.1 e.2 m) map) = some value := by
  induction entries generalizing map with
  | nil => cases hmem
  | cons head rest ih =>
      rw [List.forall_mem_cons] at h
      rw [List.foldl_cons]
      by_cases hlater : (key, value) ∈ rest
      · exact ih hlater h.2
      · -- The head is the last insertion at the key, for any later one would agree.
        have hhead : (key, value) = head := (List.mem_cons.1 hmem).resolve_right hlater
        have hother : ∀ entry ∈ rest, entry.1 ≠ key := by
          rintro ⟨other, found⟩ hentry rfl
          exact hlater (h.2 _ hentry rfl ▸ hentry)
        rw [find?_foldl_insert_of_forall_ne hother, ← hhead, find?_insert_self]

/-- A union finds what the newer side holds, and else what the older side holds. -/
theorem find?_union (hasc : Ascending right) :
    find? key (union left right) = (find? key right).or (find? key left) := by
  cases hright : find? key right with
  | none =>
      rw [Option.none_or]
      exact find?_foldl_insert_of_forall_ne (find?_eq_none_iff.1 hright)
  | some value =>
      rw [Option.some_or]
      refine find?_foldl_insert_of_mem (mem_of_find? hright) ?_
      rintro ⟨other, found⟩ hentry rfl
      have hfound := (find?_eq_some_iff_mem hasc).2 hentry
      exact Option.some.inj (hfound.symm.trans hright)

/-! ## Maps of entries in any order -/

/-- Insertions bring in no entries but those inserted. -/
theorem mem_foldl_insert {entry : String × α}
    (h : entry ∈ entries.foldl (fun m e => insert e.1 e.2 m) map) :
    entry ∈ map ∨ entry ∈ entries := by
  induction entries generalizing map with
  | nil => exact .inl h
  | cons head rest ih =>
      rcases ih h with hmap | hrest
      · rcases mem_insert hmap with rfl | hmem
        · exact .inr List.mem_cons_self
        · exact .inl hmem
      · exact .inr (List.mem_cons_of_mem _ hrest)

/-- A map holds only entries that were given. -/
theorem mem_of_mem_ofList {entry : String × α} (h : entry ∈ ofList entries) : entry ∈ entries :=
  (mem_foldl_insert h).resolve_left List.not_mem_nil

/-- Entries in key order are a map already. -/
theorem ofList_of_ascending (h : Ascending entries) : ofList entries = entries := by
  refine eq_of_find?_eq (ascending_ofList entries) h fun key => ?_
  exact (find?_union h).trans (Option.or_none)

/-- Entries without a repeated key are all kept, in key order. -/
theorem perm_ofList (h : (entries.map (·.1)).Nodup) : (ofList entries).Perm entries := by
  have hentries : entries.Nodup := List.Nodup.of_map _ h
  have hkeyed : (ofList entries).Nodup := by
    refine (ascending_ofList entries).imp ?_
    rintro a b hlt rfl
    exact String.lt_irrefl a.1 hlt
  refine (List.perm_ext_iff_of_nodup hkeyed hentries).2 fun entry => ?_
  refine ⟨mem_of_mem_ofList, fun hmem => ?_⟩
  refine (find?_eq_some_iff_mem (ascending_ofList entries)).1 ?_
  refine find?_foldl_insert_of_mem hmem fun other hother hkey => ?_
  exact congrArg Prod.snd (List.inj_on_of_nodup_map h hother hmem hkey)

/-- The entries of a map make it again, in whatever order they are given. -/
theorem ofList_of_perm {map : List (String × α)} (hmap : Ascending map)
    (h : entries.Perm map) : ofList entries = map := by
  have hkeys : (entries.map (·.1)).Nodup := by
    refine (h.map _).nodup_iff.2 (List.pairwise_map.2 (hmap.imp fun hlt heq => ?_))
    exact String.lt_irrefl _ (heq ▸ hlt)
  have hperm : (ofList entries).Perm map := (perm_ofList hkeys).trans h
  refine eq_of_find?_eq (ascending_ofList entries) hmap fun key => Option.ext fun value => ?_
  rw [find?_eq_some_iff_mem (ascending_ofList entries), find?_eq_some_iff_mem hmap,
    hperm.mem_iff]

end Keyed

namespace Snapshot

/-- A union of snapshots finds what the newer one holds, and else what the older one
holds. -/
theorem find?_union (older newer : Snapshot) (path : String) :
    (older.union newer).find? path = (newer.find? path).or (older.find? path) :=
  Keyed.find?_union newer.ascending

variable {snapshot other : Snapshot} {path : String}

/-- A snapshot is known by what is found in it. -/
theorem ext_find? (h : ∀ path, snapshot.find? path = other.find? path) : snapshot = other := by
  rcases snapshot with ⟨entries, hentries⟩
  rcases other with ⟨others, hothers⟩
  have heq : entries = others := Keyed.eq_of_find?_eq hentries hothers h
  subst heq
  rfl

/-- The paths of a snapshot are those with an entry. -/
theorem mem_paths_iff : path ∈ snapshot.paths ↔ ∃ entry, snapshot.find? path = some entry := by
  rw [paths, List.mem_map]
  constructor
  · rintro ⟨⟨key, entry⟩, hentry, rfl⟩
    exact ⟨entry, (Keyed.find?_eq_some_iff_mem snapshot.ascending).2 hentry⟩
  · rintro ⟨entry, hentry⟩
    exact ⟨(path, entry), Keyed.mem_of_find? hentry, rfl⟩

/-! ## Several snapshots -/

/-- Several snapshots in one, the later ones over the earlier ones. -/
def merged (snapshots : List Snapshot) : Snapshot := snapshots.foldl union empty

variable {snapshots : List Snapshot} {entry : SnapshotEntry}

/-- What is found in several snapshots is what the last of them holds that holds anything. -/
theorem find?_merged (snapshots : List Snapshot) (path : String) :
    (merged snapshots).find? path = snapshots.reverse.findSome? fun s => s.find? path := by
  induction snapshots using List.reverseRecOn with
  | nil => rfl
  | append_singleton front last ih =>
      rw [merged, List.foldl_concat, find?_union, List.reverse_concat, List.findSome?_cons]
      rw [merged] at ih
      cases last.find? path with
      | none => exact ih
      | some entry => rfl

/-- In snapshots that agree wherever two of them hold an entry, what is found is what any of
them holds. -/
theorem find?_merged_iff (hagree : ∀ s ∈ snapshots, ∀ t ∈ snapshots, ∀ found other,
      s.find? path = some found → t.find? path = some other → found = other) :
    (merged snapshots).find? path = some entry ↔ ∃ s ∈ snapshots, s.find? path = some entry := by
  rw [find?_merged]
  constructor
  · intro h
    rcases List.exists_of_findSome?_eq_some h with ⟨s, hs, hentry⟩
    exact ⟨s, List.mem_reverse.1 hs, hentry⟩
  · rintro ⟨s, hs, hentry⟩
    cases hfound : snapshots.reverse.findSome? fun s => s.find? path with
    | none =>
        have hnone := List.findSome?_eq_none_iff.1 hfound s (List.mem_reverse.2 hs)
        cases hnone.symm.trans hentry
    | some found =>
        rcases List.exists_of_findSome?_eq_some hfound with ⟨t, ht, hother⟩
        rw [hagree t (List.mem_reverse.1 ht) s hs found entry hother hentry]

end Snapshot

end TriggerGraph
