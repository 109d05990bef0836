import TriggerGraph.Proofs.Operator.Operands

/-!
# Opposite and plural operators

Four operators are the opposites of others: whatever the operands are, however many there are
and whether they are there at all, one of the two holds and the other does not.  The operators
on several keys ask for each key what the operator on one key asks.  Without an object there is
no key, not even vacuously: no list of keys is found in it, an empty one included.

Main results:

- Theorem `decides_hasAnyKey`: an object has some key of a list if it has one of them.
- Theorem `decides_hasAllKeys`: and all keys of a list if it is an object and has each.
- Theorem `opposites_and_plurals`: opposite and plural operators follow the simple ones.
-/

namespace TriggerGraph

namespace Operator

variable {o : Option Value} {members : List (String × Document)} {keys : List Value}
  {key : Value} {rest : List (Option Value)}

/-! ## Listed keys -/

/-- The result is an object. -/
def IsObject (v : Option Value) : Prop := ∃ members, v = some (.object members)

/-- Listed keys are counted in an object. -/
theorem keysFound?_object : keysFound? (.ofValues (some (.object members) :: some (.list keys)
    :: rest)) = some (keys.countP fun key => key.isKeyOf members, keys.length) :=
  rfl

/-- Without an object no key is counted. -/
theorem keysFound?_of_not_isObject (h : ¬ IsObject o) (values : List (Option Value)) :
    keysFound? (.ofValues (o :: values)) = none := by
  rcases o with _ | v
  · rfl
  · cases v with
    | object members => exact absurd ⟨members, rfl⟩ h
    | _ => rfl

/-! ## What operators decide -/

section AnyEngine

variable [SchemaEngine]

/-- On whatever operands, one of the two operators holds and the other does not. -/
def Opposes (negative positive : Operator) : Prop :=
  ∀ operands : Operands, ∃ answer, positive.apply operands = .ok (.bool answer) ∧
    negative.apply operands = .ok (.bool !answer)

/-- On operands with the given results the operator answers whether a condition is met. -/
def Decides (operator : Operator) (values : List (Option Value)) (condition : Prop) : Prop :=
  ∃ answer, operator.on values = .ok (.bool answer) ∧ (answer = true ↔ condition)

/-- On operands with the given results the operator holds. -/
def Holds (operator : Operator) (values : List (Option Value)) : Prop :=
  operator.on values = .ok (.bool true)

/-! ## Opposites -/

/-- Lacking a key is the negation of having it. -/
theorem opposes_lacksKey : Opposes .lacksKey .hasKey :=
  fun operands => ⟨hasTheKey operands, rfl, rfl⟩

/-- Not containing an element is the negation of containing it. -/
theorem opposes_notContainsElement : Opposes .notContainsElement .containsElement :=
  fun operands => ⟨containsValue operands, rfl, rfl⟩

/-- No key is found if none is counted. -/
theorem opposes_hasNoKeys : Opposes .hasNoKeys .hasAnyKey := by
  intro operands
  refine ⟨_, rfl, ?_⟩
  rw [apply]
  cases keysFound? operands with
  | none => rfl
  | some counts => simp [Nat.pos_iff_ne_zero]

/-- No operand is true if none is counted. -/
theorem opposes_noneOf : Opposes .noneOf .or := by
  intro operands
  refine ⟨_, rfl, ?_⟩
  have hnone : decide (trueCount operands = 0) = !operands.values.any Value.holdsTrue := by
    rw [trueCount, Bool.eq_iff_iff]
    simp
  rw [apply, hnone]

/-! ## Keys of an object -/

/-- A value is a key of an object if that has it. -/
theorem holds_hasKey_object_iff :
    Holds .hasKey (some (.object members) :: some key :: rest) ↔ key.isKeyOf members = true := by
  show Except.ok (Value.bool (key.isKeyOf members)) = .ok (.bool true) ↔ _
  simp

/-- Nothing but an object has a key. -/
theorem isObject_of_holds_hasKey (h : Holds .hasKey (o :: some key :: rest)) : IsObject o := by
  rcases o with _ | v
  · cases h
  · cases v with
    | object members => exact ⟨members, rfl⟩
    | _ => cases h

/-- An object has some key of a list if it has one of them. -/
theorem decides_hasAnyKey (o : Option Value) (keys : List Value) (rest : List (Option Value)) :
    Decides .hasAnyKey (o :: some (.list keys) :: rest)
      (∃ key ∈ keys, Holds .hasKey (o :: some key :: rest)) := by
  refine ⟨_, rfl, ?_⟩
  by_cases hobject : IsObject o
  · rcases hobject with ⟨members, rfl⟩
    rw [keysFound?_object, Option.any_some, decide_eq_true_eq, List.countP_pos_iff]
    simp only [holds_hasKey_object_iff]
  · rw [keysFound?_of_not_isObject hobject]
    constructor
    · intro h
      cases h
    · rintro ⟨key, -, hkey⟩
      exact absurd (isObject_of_holds_hasKey hkey) hobject

/-- An object has all keys of a list if it is one and has each of them. -/
theorem decides_hasAllKeys (o : Option Value) (keys : List Value) (rest : List (Option Value)) :
    Decides .hasAllKeys (o :: some (.list keys) :: rest)
      (IsObject o ∧ ∀ key ∈ keys, Holds .hasKey (o :: some key :: rest)) := by
  refine ⟨_, rfl, ?_⟩
  by_cases hobject : IsObject o
  · rcases hobject with ⟨members, rfl⟩
    have hthere : IsObject (some (.object members)) := ⟨members, rfl⟩
    rw [keysFound?_object, Option.any_some, decide_eq_true_eq, List.countP_eq_length]
    simp only [holds_hasKey_object_iff, hthere, true_and]
  · rw [keysFound?_of_not_isObject hobject]
    constructor
    · intro h
      cases h
    · rintro ⟨hthere, -⟩
      exact absurd hthere hobject

/-- Opposite operators are each other's negation on whatever operands.  Of a list of keys the
first operand has some if it has one of them, and all if it is an object and has each of them,
whatever values are listed and how often.  So nothing but an object has all keys of a list, even
of an empty one, and anything else has none of them. -/
theorem opposites_and_plurals :
    (Opposes .lacksKey .hasKey ∧ Opposes .hasNoKeys .hasAnyKey ∧
        Opposes .notContainsElement .containsElement ∧ Opposes .noneOf .or) ∧
      ∀ (o : Option Value) (keys : List Value) (rest : List (Option Value)),
        Decides .hasAnyKey (o :: some (.list keys) :: rest)
            (∃ key ∈ keys, Holds .hasKey (o :: some key :: rest)) ∧
          Decides .hasAllKeys (o :: some (.list keys) :: rest)
            (IsObject o ∧ ∀ key ∈ keys, Holds .hasKey (o :: some key :: rest)) ∧
          (¬ IsObject o →
            on .hasAllKeys (o :: some (.list keys) :: rest) = .ok (.bool false) ∧
              on .hasNoKeys (o :: some (.list keys) :: rest) = .ok (.bool true)) := by
  refine ⟨⟨opposes_lacksKey, opposes_hasNoKeys, opposes_notContainsElement, opposes_noneOf⟩, ?_⟩
  intro o keys rest
  refine ⟨decides_hasAnyKey o keys rest, decides_hasAllKeys o keys rest, fun hobject => ?_⟩
  have hnone := keysFound?_of_not_isObject hobject (some (.list keys) :: rest)
  constructor
  · rw [on, apply, hnone]
    rfl
  · rw [on, apply, hnone]
    rfl

end AnyEngine

section BooleanSchemas

attribute [local instance] SchemaEngine.booleans

/-- A number has all keys of no list, and none of an empty one. -/
theorem plurals_of_number :
    ¬ IsObject (some (.number (.word (.signed 3)))) ∧
      on .hasAllKeys [some (.number (.word (.signed 3))), some (.list [])] =
        .ok (.bool false) ∧
      on .hasNoKeys [some (.number (.word (.signed 3))), some (.list [])] =
        .ok (.bool true) := by
  have hnumber : ¬ IsObject (some (.number (.word (.signed 3)))) := by
    rintro ⟨members, hsame⟩
    cases hsame
  exact ⟨hnumber, (opposites_and_plurals.2 _ [] []).2.2 hnumber⟩

end BooleanSchemas

end Operator

end TriggerGraph
