import TriggerGraph.Operator.Apply

/-!
# Sound caches

A cache is sound when the answer it holds for a text is what the text compiles to,
failures included.  An empty cache is sound and a request keeps it so, whichever entry
is dropped; over a sound cache an operator computes what it means.

Main results:

- Theorems `Sound.request_fst` and `Sound.request_snd`: a sound cache answers like the
  compiler and stays sound.
- Theorem `Operator.run_of_sound`: over a sound cache the result of an operator does
  not depend on what is held.
-/

namespace TriggerGraph

namespace SchemaCache

variable [SchemaEngine]

/-- Each answer held is the compilation of its text. -/
def Sound (cache : SchemaCache) : Prop :=
  ∀ entry ∈ cache.entries, entry.2 = Schema.compile entry.1

/-- A new cache is sound. -/
theorem sound_withCapacity (capacity : Nat) (victim : Nat → Nat) :
    (withCapacity capacity victim).Sound := by
  intro entry hentry
  simp [withCapacity] at hentry

variable {cache : SchemaCache}

/-- What a sound cache holds for a text is what compiling it gives. -/
theorem Sound.eq_compile_of_find? (h : cache.Sound) {text : String}
    {answer : SchemaAnswer} (hfind : cache.find? text = some answer) :
    answer = Schema.compile text := by
  rcases Option.map_eq_some_iff.1 hfind with ⟨entry, hentry, rfl⟩
  have htext : entry.1 = text := by simpa using List.find?_some hentry
  rw [← htext]
  exact h entry (List.mem_of_find?_eq_some hentry)

/-- Making room keeps a cache sound. -/
theorem Sound.makeRoom (h : cache.Sound) : cache.makeRoom.Sound := by
  unfold SchemaCache.makeRoom
  split
  · exact h
  · intro entry hentry
    exact h entry (List.mem_of_mem_eraseIdx hentry)

/-- Keeping what a text compiles to keeps a cache sound. -/
theorem Sound.push (h : cache.Sound) (text : String) :
    (cache.push text (Schema.compile text)).Sound := by
  intro entry hentry
  rcases List.mem_append.1 hentry with hold | hnew
  · exact h entry hold
  · rw [List.mem_singleton] at hnew
    rw [hnew]

/-- A sound cache answers like the compiler. -/
theorem Sound.request_fst (h : cache.Sound) (text : String) :
    (cache.request text).1 = Schema.compile text := by
  cases hfind : cache.find? text with
  | none => exact request_fst_of_missing hfind
  | some answer =>
      rw [request_of_held hfind]
      exact h.eq_compile_of_find? hfind

/-- A request keeps a cache sound. -/
theorem Sound.request_snd (h : cache.Sound) (text : String) : (cache.request text).2.Sound := by
  cases hfind : cache.find? text with
  | none =>
      have hpush := h.makeRoom.push text
      simpa [request, hfind] using hpush
  | some answer =>
      rw [request_of_held hfind]
      exact h

end SchemaCache

namespace Operator

variable [SchemaEngine]

/-- Over a sound cache an operator computes what it means, and the cache stays
sound. -/
theorem run_of_sound {cache : SchemaCache} (h : cache.Sound) (operator : Operator)
    (operands : Operands) :
    (operator.run operands cache).1 = operator.apply operands ∧
      (operator.run operands cache).2.Sound := by
  by_cases hschema : operator = .matchesSchema
  · subst hschema
    simp only [run, apply, applySchema, ↓reduceIte]
    cases hquery : schemaQuery operands with
    | error error => exact ⟨rfl, h⟩
    | ok query =>
        cases query with
        | none => exact ⟨rfl, h⟩
        | some pair =>
            rcases pair with ⟨v, text⟩
            dsimp only
            rw [h.request_fst]
            exact ⟨rfl, h.request_snd text⟩
  · rw [run_of_ne_matchesSchema hschema]
    exact ⟨rfl, h⟩

end Operator

end TriggerGraph
