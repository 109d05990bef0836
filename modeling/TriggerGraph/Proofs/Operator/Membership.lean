import TriggerGraph.Proofs.Number.Order
import TriggerGraph.Proofs.Operator.Operands
import TriggerGraph.Proofs.Value.Fingerprint

/-!
# Membership by search and by hash

An element is looked for in two ways: by comparing it with each element of a list, and by
hash in a set.  The search asks for an equal element, the hash for the very same one, once
both are normalized.  Normalizing leaves no zero behind that is a floating-point number,
except in objects, which it does not enter.  So the two ways agree on all values whose
objects are free of negative zeros, and a negative zero in an object is all that sets them
apart.

Main results:

- Theorem `Value.normalized_eq_of_looselyEqual`: when loosely equal values normalize to the
  same value.
- Theorem `Value.isElementOf_of_foundBy`: what a hash finds, the search finds.
- Theorem `Operator.memberships_agree`: all membership operators agree where objects are
  free of negative zeros.
- Theorem `Operator.memberships_differ`: equal values that do not normalize to the same one
  are told apart by the hash alone.
-/

namespace TriggerGraph

/-- A normalized number is no floating-point zero. -/
theorem MachineNumber.plain_normalized (n : MachineNumber) :
    n.normalized.plain = n.normalized := by
  cases n with
  | word w => rfl
  | float x =>
      cases hzero : x.isZero with
      | true =>
          have hunits : (float x).units = (word (.signed 0)).units :=
            (Binary64.units_of_isZero hzero).trans (Int.zero_mul _).symm
          rw [normalized_float_of_units hunits]
          rfl
      | false =>
          have hplain : (float x).plain = .float x := by
            rw [plain, Binary64.plain_of_not_isZero hzero]
          cases hwhole : x.isWhole with
          | false => simp [normalized, hwhole, hplain]
          | true =>
              cases hword : MachineWord.ofInt? x.whole with
              | none => simp [normalized, hwhole, hword, hplain]
              | some w => simp [normalized, hwhole, hword, plain]

namespace Value

/-! ## Objects without negative zeros -/

mutual

/-- No object in the value holds a negative zero. -/
def PlainObjects : Value → Prop
  | .list items => PlainObjectsItems items
  | .object members => Document.plainMembers members = members
  | _ => True

/-- No object in the values of a list holds a negative zero. -/
def PlainObjectsItems : List Value → Prop
  | [] => True
  | v :: rest => PlainObjects v ∧ PlainObjectsItems rest

end

mutual

/-- Such a value has no negative zero left once it is normalized. -/
theorem plain_normalized : ∀ v : Value, v.PlainObjects → v.normalized.plain = v.normalized
  | .null, _ => rfl
  | .bool _, _ => rfl
  | .number n, _ => by rw [normalized, plain, n.plain_normalized]
  | .string _, _ => rfl
  | .list items, h => by rw [normalized, plain, plainItems_normalizedItems items h]
  | .object members, h => by
      rw [PlainObjects] at h
      rw [normalized, plain, h]

theorem plainItems_normalizedItems : ∀ vs : List Value, PlainObjectsItems vs →
    plainItems (normalizedItems vs) = normalizedItems vs
  | [], _ => rfl
  | v :: rest, h => by
      rw [normalizedItems, plainItems, plain_normalized v h.1,
        plainItems_normalizedItems rest h.2]

end

/-- Loosely equal values without negative zeros in objects normalize to the same value. -/
theorem normalized_eq_of_looselyEqual {v w : Value} (hv : v.PlainObjects)
    (hw : w.PlainObjects) (h : v.looselyEqual w = true) : v.normalized = w.normalized := by
  rw [looselyEqual, equal_iff, plain_normalized v hv, plain_normalized w hw] at h
  exact h

/-! ## Search and hash -/

variable {H : Type} [DecidableEq H] {v : Value} {items : List Value}

/-- Whether a table finds a value: it compares hashes of marks first, and only then values. -/
def foundBy (hash : List Mark → H) (v : Value) (items : List Value) : Bool :=
  items.any fun item =>
    hash item.normalized.fingerprint = hash v.normalized.fingerprint && item.looselyEqual v

/-- What a hash finds, the search finds. -/
theorem isElementOf_of_foundBy {hash : List Mark → H} (h : v.foundBy hash items = true) :
    v.isElementOf items = true := by
  simp only [foundBy, List.any_eq_true, Bool.and_eq_true] at h
  rcases h with ⟨item, hitem, -, hequal⟩
  exact List.any_eq_true.2 ⟨item, hitem, hequal⟩

/-- What the search finds, every hash finds if no object holds a negative zero. -/
theorem foundBy_eq_isElementOf (hash : List Mark → H) (hv : v.PlainObjects)
    (hitems : ∀ item ∈ items, item.PlainObjects) :
    v.foundBy hash items = v.isElementOf items := by
  rw [Bool.eq_iff_iff]
  refine ⟨isElementOf_of_foundBy, fun h => ?_⟩
  rcases List.any_eq_true.1 h with ⟨item, hitem, hequal⟩
  have hsame := normalized_eq_of_looselyEqual (hitems item hitem) hv hequal
  refine List.any_eq_true.2 ⟨item, hitem, ?_⟩
  rw [hsame, hequal]
  simp

/-- A set and a search agree where objects are free of negative zeros. -/
theorem inSet_eq_isElementOf (hv : v.PlainObjects)
    (hitems : ∀ item ∈ items, item.PlainObjects) : v.inSet items = v.isElementOf items :=
  foundBy_eq_isElementOf id hv hitems

end Value

namespace Operator

open Value (PlainObjects)

section AnyEngine

variable [SchemaEngine]

/-- The operators that look for elements in a list. -/
def memberships : List Operator := [.containsElement, .inSet, .containsAll, .containsAny]

/-- An element is looked for in the set that its list is made. -/
theorem on_inSet (items : List Value) (v : Value) :
    on .inSet [some v, some (.list items)] = .ok (.bool (v.inSet items)) := rfl

/-- All of several elements are looked for in one set, which is a table whose hash is the
sequence of marks itself. -/
theorem on_containsAll (items wanted : List Value) :
    on .containsAll [some (.list items), some (.list wanted)] =
      .ok (.bool (wanted.all fun v => v.foundBy id items)) := rfl

/-- And so is some of them. -/
theorem on_containsAny (items wanted : List Value) :
    on .containsAny [some (.list items), some (.list wanted)] =
      .ok (.bool (wanted.any fun v => v.foundBy id items)) := rfl

/-- What tables of any hash find of several values, the search for each of them finds. -/
theorem foundBy_wanted {H : Type} [DecidableEq H] (hash : List Mark → H)
    {items wanted : List Value} (hitems : ∀ item ∈ items, item.PlainObjects)
    (hwanted : ∀ v ∈ wanted, v.PlainObjects) :
    ((wanted.all fun v => v.foundBy hash items) = true ↔
        ∀ v ∈ wanted, on .containsElement [some (.list items), some v] = .ok (.bool true)) ∧
      ((wanted.any fun v => v.foundBy hash items) = true ↔
        ∃ v ∈ wanted, on .containsElement [some (.list items), some v] = .ok (.bool true)) := by
  have helement : ∀ v ∈ wanted, (v.foundBy hash items = true ↔
      on .containsElement [some (.list items), some v] = .ok (.bool true)) := by
    intro v hv
    rw [Value.foundBy_eq_isElementOf hash (hwanted v hv) hitems, on_containsElement_eq_true_iff]
  rw [List.all_eq_true, List.any_eq_true]
  exact ⟨forall₂_congr helement, exists_congr fun v => and_congr_right (helement v)⟩

/-- Where objects are free of negative zeros, all membership operators agree with the search
for one element, whatever operands produced the values, and so do tables of any hash. -/
theorem memberships_agree {items : List Value} (hitems : ∀ item ∈ items, item.PlainObjects) :
    (∀ operator ∈ memberships, ∀ operands : Operands,
      operator.apply operands = on operator operands.values) ∧
      (∀ v : Value, v.PlainObjects →
        on .inSet [some v, some (.list items)] =
            on .containsElement [some (.list items), some v] ∧
          ∀ (H : Type) [DecidableEq H] (hash : List Mark → H),
            v.foundBy hash items = v.isElementOf items) ∧
      ∀ wanted : List Value, (∀ v ∈ wanted, v.PlainObjects) →
        (on .containsAll [some (.list items), some (.list wanted)] = .ok (.bool true) ↔
          ∀ v ∈ wanted, on .containsElement [some (.list items), some v] = .ok (.bool true)) ∧
        (on .containsAny [some (.list items), some (.list wanted)] = .ok (.bool true) ↔
          ∃ v ∈ wanted, on .containsElement [some (.list items), some v] = .ok (.bool true)) ∧
        ∀ (H : Type) [DecidableEq H] (hash : List Mark → H),
          ((wanted.all fun v => v.foundBy hash items) = true ↔
            ∀ v ∈ wanted, on .containsElement [some (.list items), some v] = .ok (.bool true)) ∧
          ((wanted.any fun v => v.foundBy hash items) = true ↔
            ∃ v ∈ wanted,
              on .containsElement [some (.list items), some v] = .ok (.bool true)) := by
  have hreads : ∀ operator ∈ memberships, operator.readsValues = true := by decide
  refine ⟨fun operator hmem => apply_eq_on (hreads operator hmem), fun v hv => ⟨?_, ?_⟩, ?_⟩
  · rw [on_inSet, on_containsElement, Value.inSet_eq_isElementOf hv hitems]
  · intro H _ hash
    exact Value.foundBy_eq_isElementOf hash hv hitems
  · intro wanted hwanted
    -- The operators use the marks themselves for a hash.
    rcases foundBy_wanted id hitems hwanted with ⟨hall, hany⟩
    refine ⟨?_, ?_, fun H _ hash => foundBy_wanted hash hitems hwanted⟩
    · rw [on_containsAll, Except.ok.injEq, Value.bool.injEq, hall]
    · rw [on_containsAny, Except.ok.injEq, Value.bool.injEq, hany]

/-- Equal values that do not normalize to the same one are told apart by the hash alone. -/
theorem memberships_differ {v item : Value} (hequal : item.looselyEqual v = true)
    (hne : item.normalized ≠ v.normalized) :
    on .inSet [some v, some (.list [item])] = .ok (.bool false) ∧
      on .containsElement [some (.list [item]), some v] = .ok (.bool true) := by
  have hset : v.inSet [item] = false := by
    rw [← Bool.not_eq_true, Value.inSet_iff_exists_normalized_eq]
    simpa using hne
  have hlist : v.isElementOf [item] = true := by
    rw [Value.isElementOf, List.any_cons, hequal]
    rfl
  constructor
  · rw [on_inSet, hset]
  · rw [on_containsElement, hlist]

end AnyEngine

/-- An object whose one member is a zero. -/
def zeroAt (key : String) (negative : Bool) : Value :=
  .object [(key, .number (.float ⟨negative, 0, Nat.zero_le _⟩))]

/-- A list that holds a number. -/
def oneInList : Value := .list [.number (.word (.signed 1))]

section BooleanSchemas

attribute [local instance] SchemaEngine.booleans

/-- The zero is no negative one, so all operators find the list of one. -/
theorem memberships_agree_on_nested :
    (∀ item ∈ [zeroAt "a" false, oneInList], item.PlainObjects) ∧
      on .inSet [some oneInList, some (.list [zeroAt "a" false, oneInList])] =
        on .containsElement [some (.list [zeroAt "a" false, oneInList]), some oneInList] ∧
      on .containsElement [some (.list [zeroAt "a" false, oneInList]), some oneInList] =
        .ok (.bool true) := by
  have hone : oneInList.PlainObjects := ⟨trivial, trivial⟩
  have hitems : ∀ item ∈ [zeroAt "a" false, oneInList], item.PlainObjects := by
    simp only [List.forall_mem_cons, hone, true_and]
    exact ⟨rfl, by simp⟩
  exact ⟨hitems, ((memberships_agree hitems).2.1 oneInList hone).1, rfl⟩

/-- No element of objects with negative zeros is found by hash, but each one by itself. -/
theorem memberships_differ_on_negative_zero :
    on .containsAll
        [some (.list [zeroAt "a" false, zeroAt "b" false, zeroAt "c" false]),
          some (.list [zeroAt "a" true, zeroAt "b" true, zeroAt "c" true])] =
        .ok (.bool false) ∧
      ∀ v ∈ [zeroAt "a" true, zeroAt "b" true, zeroAt "c" true],
        on .containsElement
          [some (.list [zeroAt "a" false, zeroAt "b" false, zeroAt "c" false]), some v] =
          .ok (.bool true) := by
  refine ⟨rfl, ?_⟩
  simp only [List.forall_mem_cons]
  exact ⟨rfl, rfl, rfl, by simp⟩

end BooleanSchemas

end Operator

end TriggerGraph
