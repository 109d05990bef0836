/-!
# Maps as entries in key order

The members of a document and the entries of a snapshot are finite maps from
text keys.  Both are kept as a list of entries whose keys strictly ascend, so
that equal maps are equal lists and printing a map needs no sorting.

Main results:

- Theorems `find?_insert_self` and `find?_insert_of_ne`: an insertion is seen at
  its own key and nowhere else.
- Theorem `Ascending.insert`: insertion keeps the keys in order.
-/

namespace TriggerGraph

namespace Keyed

variable {α β : Type}

/-! ## The order of entries -/

/-- Entries whose keys strictly ascend, so that no key occurs twice. -/
def Ascending (entries : List (String × α)) : Prop :=
  entries.Pairwise fun a b => a.1 < b.1

instance (entries : List (String × α)) : Decidable (Ascending entries) :=
  inferInstanceAs (Decidable (entries.Pairwise fun a b => a.1 < b.1))

/-! ## Operations -/

/-- The entries with `key` set to `value`: an entry of that key is replaced, a
new one goes to its place in the order. -/
def insert (key : String) (value : α) : List (String × α) → List (String × α)
  | [] => [(key, value)]
  | entry :: rest =>
    if key < entry.1 then (key, value) :: entry :: rest
    else if key = entry.1 then (key, value) :: rest
    else entry :: insert key value rest

/-- The value at `key`. -/
def find? (key : String) : List (String × α) → Option α
  | [] => none
  | entry :: rest => if key = entry.1 then some entry.2 else find? key rest

/-- The map of entries given in any order; of two entries with one key the later
one stays. -/
def ofList (entries : List (String × α)) : List (String × α) :=
  entries.foldl (fun map entry => insert entry.1 entry.2 map) []

/-- The map that holds `right` over `left`. -/
def union (left right : List (String × α)) : List (String × α) :=
  right.foldl (fun map entry => insert entry.1 entry.2 map) left

/-! ## Lookup after an insertion -/

@[simp] theorem find?_nil (key : String) : find? key ([] : List (String × α)) = none :=
  rfl

/-- An inserted value is found at its key. -/
@[simp] theorem find?_insert_self (key : String) (value : α)
    (entries : List (String × α)) : find? key (insert key value entries) = some value := by
  induction entries with
  | nil => simp [insert, find?]
  | cons entry rest ih =>
      unfold insert
      split
      · simp [find?]
      · split
        · simp [find?]
        · rename_i h
          simp [find?, h, ih]

/-- An insertion leaves every other key alone. -/
theorem find?_insert_of_ne {key other : String} (value : α)
    (entries : List (String × α)) (h : other ≠ key) :
    find? other (insert key value entries) = find? other entries := by
  induction entries with
  | nil => simp [insert, find?, h]
  | cons entry rest ih =>
      unfold insert
      split
      · simp [find?, h]
      · split
        · rename_i heq
          simp [find?, ← heq, h]
        · simp [find?, ih]

/-! ## Insertion keeps the order -/

/-- An entry of a map after an insertion is the new one or an old one. -/
theorem mem_insert {key : String} {value : α} {entry : String × α}
    {entries : List (String × α)} (h : entry ∈ insert key value entries) :
    entry = (key, value) ∨ entry ∈ entries := by
  induction entries with
  | nil => simpa [insert] using h
  | cons head rest ih =>
      unfold insert at h
      split at h
      · simpa using h
      · split at h
        · rcases List.mem_cons.1 h with h | h
          · exact .inl h
          · exact .inr (List.mem_cons_of_mem _ h)
        · rcases List.mem_cons.1 h with h | h
          · exact .inr (h ▸ List.mem_cons_self)
          · exact (ih h).imp_right (List.mem_cons_of_mem _)

theorem ascending_nil : Ascending ([] : List (String × α)) :=
  List.Pairwise.nil

/-- Insertion keeps the keys strictly ascending. -/
theorem Ascending.insert {entries : List (String × α)} (h : Ascending entries)
    (key : String) (value : α) : Ascending (insert key value entries) := by
  induction entries with
  | nil => simp [Keyed.insert, Ascending]
  | cons head rest ih =>
      obtain ⟨hHead, hRest⟩ := List.pairwise_cons.1 h
      unfold Keyed.insert
      split
      · rename_i hlt
        refine List.pairwise_cons.2 ⟨fun entry hmem => ?_, h⟩
        rcases List.mem_cons.1 hmem with rfl | hmem
        · exact hlt
        · exact String.lt_trans hlt (hHead entry hmem)
      · split
        · rename_i heq
          exact List.pairwise_cons.2 ⟨fun entry hmem => heq ▸ hHead entry hmem, hRest⟩
        · rename_i hlt hne
          refine List.pairwise_cons.2 ⟨fun entry hmem => ?_, ih hRest⟩
          rcases mem_insert hmem with rfl | hmem
          · have hle : head.1 ≤ key := String.not_lt.1 hlt
            exact Std.lt_of_le_of_ne hle (Ne.symm hne)
          · exact hHead entry hmem

/-- A map built from entries in any order has its keys in order. -/
theorem ascending_foldl_insert {entries map : List (String × α)} (h : Ascending map) :
    Ascending (entries.foldl (fun m entry => Keyed.insert entry.1 entry.2 m) map) := by
  induction entries generalizing map with
  | nil => exact h
  | cons entry rest ih => exact ih (h.insert entry.1 entry.2)

/-- A map of entries in any order is in order. -/
theorem ascending_ofList (entries : List (String × α)) : Ascending (ofList entries) :=
  ascending_foldl_insert ascending_nil

/-- The union of maps is in order. -/
theorem ascending_union {left : List (String × α)} (h : Ascending left)
    (right : List (String × α)) : Ascending (union left right) :=
  ascending_foldl_insert h

end Keyed

end TriggerGraph
