import TriggerGraph.Schema.Engine

/-!
# The schema cache

Compiled schemas are kept by their text, so that a text is compiled once however
many passes use it.  A text that does not compile is kept too, with its error.  A
full cache drops one entry for each new one; which one is arbitrary, and is given
here by a sequence of choices that the cache is made with.

Main results:

- Theorem `request_fst_of_missing`: the answer for an unknown text is its
  compilation.
- Theorem `request_of_held`: a text that is held changes nothing.
-/

namespace TriggerGraph

variable [SchemaEngine]

/-- What an engine answers to a text: a schema, or why there is none. -/
abbrev SchemaAnswer : Type := Except SchemaError SchemaEngine.Validator

/-- Compiled schemas by text, at most `capacity` of them. -/
structure SchemaCache where
  capacity : Nat
  entries : List (String × SchemaAnswer)
  /-- The place of the entry to drop, modulo the number of entries, for each drop. -/
  victim : Nat → Nat
  drops : Nat

namespace SchemaCache

/-- The capacity of a cache for which none is asked. -/
def defaultCapacity : Nat := 256

/-- An empty cache; a capacity of zero counts as one. -/
def withCapacity (capacity : Nat) (victim : Nat → Nat) : SchemaCache :=
  ⟨max capacity 1, [], victim, 0⟩

/-- An empty cache of the default capacity that drops its oldest entry. -/
def empty : SchemaCache := withCapacity defaultCapacity fun _ => 0

/-- The number of texts held. -/
def size (cache : SchemaCache) : Nat := cache.entries.length

/-- Whether no text is held. -/
def isEmpty (cache : SchemaCache) : Bool := cache.size = 0

/-- The answer held for a text. -/
def find? (cache : SchemaCache) (text : String) : Option SchemaAnswer :=
  (cache.entries.find? fun entry => entry.1 = text).map (·.2)

/-- The cache with room for one more entry. -/
def makeRoom (cache : SchemaCache) : SchemaCache :=
  if cache.size < cache.capacity then cache
  else
    { cache with
      entries := cache.entries.eraseIdx (cache.victim cache.drops % cache.size)
      drops := cache.drops + 1 }

/-- The cache with one more entry. -/
def push (cache : SchemaCache) (text : String) (answer : SchemaAnswer) : SchemaCache :=
  { cache with entries := cache.entries ++ [(text, answer)] }

/-- The answer for a text, and the cache that holds it. -/
def request (cache : SchemaCache) (text : String) : SchemaAnswer × SchemaCache :=
  match cache.find? text with
  | some answer => (answer, cache)
  | none => (Schema.compile text, cache.makeRoom.push text (Schema.compile text))

/-- How the cache shows itself. -/
def summary (cache : SchemaCache) : String :=
  "SchemaCache \x7b schemas: " ++ toString cache.size ++ " \x7d"

/-- A text that is held changes nothing. -/
theorem request_of_held {cache : SchemaCache} {text : String}
    {answer : SchemaAnswer} (h : cache.find? text = some answer) :
    cache.request text = (answer, cache) := by
  simp [request, h]

/-- The answer for an unknown text is its compilation. -/
theorem request_fst_of_missing {cache : SchemaCache} {text : String}
    (h : cache.find? text = none) : (cache.request text).1 = Schema.compile text := by
  simp [request, h]

end SchemaCache

end TriggerGraph
