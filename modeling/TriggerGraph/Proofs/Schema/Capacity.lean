import Mathlib.Data.Finset.Card
import TriggerGraph.Proofs.Schema.Cache

/-!
# How many texts a cache holds

A cache is asked for one text after the other.  It drops nothing before it is full, and from
then on one entry for each text that is new to it.  So the number of texts held is a matter of
the requests alone: it is the number of different texts asked for so far, or the capacity if
there were more of them, whichever entries were dropped and whatever the texts compile to.

Main results:

- Theorem `Filled.request`: what one request does to the texts held.
- Theorem `Filled.requestAll`: what a run of requests does.
- Theorem `size_follows_requests`: the size of a cache after each request.
-/

namespace TriggerGraph

namespace SchemaCache

variable [SchemaEngine]

/-- The texts held. -/
def texts (cache : SchemaCache) : List String := cache.entries.map (·.1)

/-- The cache after requests for texts, one after the other. -/
def requestAll (cache : SchemaCache) : List String → SchemaCache
  | [] => cache
  | text :: rest => requestAll (cache.request text).2 rest

variable {cache : SchemaCache} {text : String} {requested : Finset String}

/-! ## Texts held -/

@[simp] theorem length_texts (cache : SchemaCache) : cache.texts.length = cache.size := by
  simp [texts, size]

@[simp] theorem texts_push (cache : SchemaCache) (text : String)
    (answer : SchemaAnswer) :
    (cache.push text answer).texts = cache.texts ++ [text] := by
  simp [texts, push]

@[simp] theorem size_push (cache : SchemaCache) (text : String)
    (answer : SchemaAnswer) : (cache.push text answer).size = cache.size + 1 := by
  simp [push, size]

/-- An answer is found exactly for the texts held. -/
theorem find?_eq_none_iff : cache.find? text = none ↔ text ∉ cache.texts := by
  rw [find?, Option.map_eq_none_iff, List.find?_eq_none, texts, List.mem_map, not_exists]
  refine forall_congr' fun entry => ?_
  rw [not_and, decide_eq_true_eq]

/-- A text that is pushed is found, unless another answer is held for it. -/
theorem find?_push (h : cache.find? text = none) (answer : SchemaAnswer) :
    (cache.push text answer).find? text = some answer := by
  have hnone := Option.map_eq_none_iff.1 h
  simp [find?, push, hnone]

/-- A text that is not held is compiled and added, with room made for it. -/
theorem request_snd_of_missing (h : cache.find? text = none) :
    (cache.request text).2 = cache.makeRoom.push text (Schema.compile text) := by
  rw [request, h]

@[simp] theorem capacity_makeRoom (cache : SchemaCache) :
    cache.makeRoom.capacity = cache.capacity := by
  unfold makeRoom
  split <;> rfl

/-- Making room drops entries and leaves the others as they are. -/
theorem texts_makeRoom_sublist (cache : SchemaCache) :
    cache.makeRoom.texts.Sublist cache.texts := by
  unfold makeRoom
  split
  · exact List.Sublist.refl _
  · exact (List.eraseIdx_sublist cache.entries _).map _

/-- A cache with room keeps its size, a full one loses one entry. -/
theorem size_makeRoom (hcapacity : 0 < cache.capacity) (hsize : cache.size ≤ cache.capacity) :
    cache.makeRoom.size = min cache.size (cache.capacity - 1) := by
  unfold makeRoom
  by_cases hroom : cache.size < cache.capacity
  · rw [if_pos hroom]
    omega
  · rw [if_neg hroom]
    have hdropped : cache.victim cache.drops % cache.size < cache.entries.length :=
      Nat.mod_lt _ (by omega)
    have hlength := List.length_eraseIdx_of_lt hdropped
    have hold : cache.entries.length = cache.size := rfl
    simp only [size] at hlength ⊢
    omega

/-! ## Runs of requests -/

/-- A cache of some capacity after requests for texts: it holds some of them, each once, and as
many as there are and fit. -/
structure Filled (cache : SchemaCache) (capacity : Nat) (requested : Finset String) : Prop where
  capacity_pos : 0 < capacity
  capacity_eq : cache.capacity = capacity
  nodup : cache.texts.Nodup
  subset : cache.texts.toFinset ⊆ requested
  size_eq : cache.size = min capacity requested.card

namespace Filled

variable {capacity : Nat}

/-- A new cache is filled with nothing, and has room for one entry at least. -/
theorem withCapacity (capacity : Nat) (victim : Nat → Nat) :
    Filled (withCapacity capacity victim) (max capacity 1) ∅ where
  capacity_pos := by omega
  capacity_eq := rfl
  nodup := List.nodup_nil
  subset := Finset.Subset.refl _
  size_eq := by simp [SchemaCache.withCapacity, size]

/-- A cache never holds more entries than its capacity. -/
theorem size_le (h : cache.Filled capacity requested) : cache.size ≤ capacity := by
  rw [h.size_eq]
  exact Nat.min_le_left _ _

/-- As long as there is room, nothing was dropped. -/
theorem texts_eq_of_lt (h : cache.Filled capacity requested) (hroom : cache.size < capacity) :
    cache.texts.toFinset = requested := by
  have hsize := h.size_eq
  have hcard : cache.texts.toFinset.card = cache.size := by
    rw [List.toFinset_card_of_nodup h.nodup, length_texts]
  exact Finset.eq_of_subset_of_card_le h.subset (by omega)

/-- The number of texts that are held once one more is asked for that is not held yet. -/
theorem min_card_insert (h : cache.Filled capacity requested) (hnew : text ∉ cache.texts) :
    min capacity (insert text requested).card = min cache.size (capacity - 1) + 1 := by
  have hpos := h.capacity_pos
  have hsize := h.size_eq
  by_cases hroom : cache.size < capacity
  · have hfresh : text ∉ requested := by
      rw [← h.texts_eq_of_lt hroom, List.mem_toFinset]
      exact hnew
    rw [Finset.card_insert_of_notMem hfresh]
    omega
  · have hgrows := Finset.card_le_card (Finset.subset_insert text requested)
    omega

/-- A request for a text that is held changes nothing, and any other adds its text. -/
theorem request (h : cache.Filled capacity requested) (text : String) :
    (cache.request text).2.Filled capacity (insert text requested) := by
  cases hfind : cache.find? text with
  | some answer =>
      have hheld : text ∈ cache.texts := by
        by_contra hmissing
        rw [find?_eq_none_iff.2 hmissing] at hfind
        cases hfind
      have hknown : insert text requested = requested :=
        Finset.insert_eq_of_mem (h.subset (List.mem_toFinset.2 hheld))
      rw [request_of_held hfind, hknown]
      exact h
  | none =>
      have hnew := find?_eq_none_iff.1 hfind
      have hkept := texts_makeRoom_sublist cache
      rw [request_snd_of_missing hfind]
      refine ⟨h.capacity_pos, (capacity_makeRoom cache).trans h.capacity_eq, ?nodup, ?subset,
        ?size⟩
      case nodup =>
        rw [texts_push, List.nodup_append_comm, List.singleton_append, List.nodup_cons]
        exact ⟨fun hmem => hnew (hkept.subset hmem), h.nodup.sublist hkept⟩
      case subset =>
        intro held hheld
        rw [texts_push, List.mem_toFinset, List.mem_append, List.mem_singleton] at hheld
        rcases hheld with hold | rfl
        · have hmem := h.subset (List.mem_toFinset.2 (hkept.subset hold))
          exact Finset.mem_insert_of_mem hmem
        · exact Finset.mem_insert_self held requested
      case size =>
        have hroom : cache.makeRoom.size = min cache.size (capacity - 1) := by
          rw [← h.capacity_eq]
          apply size_makeRoom
          · rw [h.capacity_eq]
            exact h.capacity_pos
          · rw [h.capacity_eq]
            exact h.size_le
        rw [size_push, hroom, h.min_card_insert hnew]

/-- What requests fill a cache with depends on the set of their texts alone. -/
theorem requestAll (h : cache.Filled capacity requested) (texts : List String) :
    (cache.requestAll texts).Filled capacity (requested ∪ texts.toFinset) := by
  induction texts generalizing cache requested with
  | nil => simpa [SchemaCache.requestAll] using h
  | cons text rest ih =>
      have hnext := ih (h.request text)
      rw [List.toFinset_cons, Finset.union_insert, ← Finset.insert_union]
      exact hnext

end Filled

/-! ## After each request -/

/-- The text just asked for is held, with what it compiles to. -/
theorem Sound.find?_request (h : cache.Sound) (text : String) :
    (cache.request text).2.find? text = some (Schema.compile text) := by
  cases hfind : cache.find? text with
  | some answer =>
      rw [request_of_held hfind, hfind, h.eq_compile_of_find? hfind]
  | none =>
      have hnew := find?_eq_none_iff.1 hfind
      have hmade : cache.makeRoom.find? text = none :=
        find?_eq_none_iff.2 fun hmem => hnew ((texts_makeRoom_sublist cache).subset hmem)
      rw [request_snd_of_missing hfind]
      exact find?_push hmade _

/-- Requests keep a cache sound. -/
theorem Sound.requestAll (h : cache.Sound) (texts : List String) :
    (cache.requestAll texts).Sound := by
  induction texts generalizing cache with
  | nil => exact h
  | cons text rest ih => exact ih (h.request_snd text)

/-- The size of a cache is determined by the requests.  After each of them, whatever was asked
for before and whichever entries were dropped, the cache holds the text just asked for, and it
holds as many different texts as were asked for so far, up to its capacity, where a capacity of
zero counts as one.  So it never holds more than its capacity and never fewer than before. -/
theorem size_follows_requests (capacity : Nat) (victim : Nat → Nat) (earlier : List String)
    (text : String) :
    let before := (withCapacity capacity victim).requestAll earlier
    let after := (before.request text).2
    after.find? text = some (Schema.compile text) ∧
      after.texts.Nodup ∧
      after.size = min (max capacity 1) (earlier ++ [text]).toFinset.card ∧
      after.capacity = max capacity 1 ∧ after.size ≤ after.capacity ∧
      before.size ≤ after.size := by
  intro before after
  have hsound : before.Sound := (sound_withCapacity capacity victim).requestAll earlier
  have hbefore : before.Filled (max capacity 1) earlier.toFinset := by
    have hrun := (Filled.withCapacity capacity victim).requestAll earlier
    rwa [Finset.empty_union] at hrun
  have hafter := hbefore.request text
  have htexts : (earlier ++ [text]).toFinset = insert text earlier.toFinset := by
    rw [List.toFinset_append, List.toFinset_cons, List.toFinset_nil, Finset.union_comm]
    rfl
  have hgrows := Finset.card_le_card (Finset.subset_insert text earlier.toFinset)
  refine ⟨hsound.find?_request text, hafter.nodup, ?_, hafter.capacity_eq, ?_, ?_⟩
  · rw [htexts]
    exact hafter.size_eq
  · rw [hafter.capacity_eq]
    exact hafter.size_le
  · rw [hbefore.size_eq, hafter.size_eq]
    omega

end SchemaCache

end TriggerGraph
