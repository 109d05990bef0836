import TriggerGraph.Proofs.Number.Rounding
import TriggerGraph.Value.Equality

/-!
# Equality is sameness up to the sign of zero

Strict equality compares floating-point numbers by value and everything else as it
stands, at every depth.  Since the two zeros are the only numbers with one value, two
values are equal exactly when they become the same once every zero has lost its sign.
So equality is reflexive, symmetric and transitive.

Main results:

- Theorem `Binary64.equal_iff`: numbers of one value are the same up to the sign of zero.
- Theorems `Document.equal_iff` and `Value.equal_iff`: so are equal documents and values.
- Theorem `Value.equalOption_iff`: and equal results, where no value equals only itself.
-/

namespace TriggerGraph

/-! ## Numbers -/

namespace Binary64

/-- The number, with positive zero for both zeros. -/
def plain (x : Binary64) : Binary64 := if x.isZero then zero else x

variable {x y : Binary64}

theorem plain_of_isZero (h : x.isZero = true) : x.plain = zero :=
  if_pos h

theorem plain_of_not_isZero (h : x.isZero = false) : x.plain = x := by
  rw [plain, h]
  rfl

theorem isZero_plain (x : Binary64) : x.plain.isZero = x.isZero := by
  cases h : x.isZero with
  | true =>
      rw [plain_of_isZero h]
      rfl
  | false => rw [plain_of_not_isZero h, h]

/-- Only zeros become the same by losing their sign. -/
theorem plain_eq_iff : x.plain = y.plain ↔ x = y ∨ x.isZero = true ∧ y.isZero = true := by
  constructor
  · intro h
    have hsame : x.isZero = y.isZero := by
      rw [← isZero_plain x, h, isZero_plain]
    cases hx : x.isZero with
    | true => exact .inr ⟨rfl, hsame.symm.trans hx⟩
    | false =>
        rw [plain_of_not_isZero hx, plain_of_not_isZero (hsame.symm.trans hx)] at h
        exact .inl h
  · rintro (rfl | ⟨hx, hy⟩)
    · rfl
    · rw [plain_of_isZero hx, plain_of_isZero hy]

/-- Numbers of one value are the same up to the sign of zero. -/
theorem equal_iff : x.equal y = true ↔ x.plain = y.plain := by
  rw [equal, decide_eq_true_eq, rank_eq_iff_eq_or_isZero, plain_eq_iff]

end Binary64

namespace Number

/-- The number, with positive zero for both floating-point zeros. -/
def plain : Number → Number
  | .int i => .int i
  | .float x => .float x.plain

/-- Equal numbers of documents are the same up to the sign of zero. -/
theorem equal_iff {m n : Number} : m.equal n = true ↔ m.plain = n.plain := by
  cases m <;> cases n <;> simp [equal, plain, Binary64.equal_iff]

end Number

namespace MachineNumber

/-- The number, with positive zero for both floating-point zeros. -/
def plain : MachineNumber → MachineNumber
  | .word w => .word w
  | .float x => .float x.plain

/-- Equal numbers of values are the same up to the sign of zero. -/
theorem equal_iff {m n : MachineNumber} : m.equal n = true ↔ m.plain = n.plain := by
  cases m <;> cases n <;> simp [equal, plain, Binary64.equal_iff]

end MachineNumber

/-! ## Documents -/

namespace Document

mutual

/-- The document without signs on its zeros. -/
def plain : Document → Document
  | .null => .null
  | .bool b => .bool b
  | .number n => .number n.plain
  | .string s => .string s
  | .array items => .array (plainItems items)
  | .object members => .object (plainMembers members)

/-- The documents of a list without signs on their zeros. -/
def plainItems : List Document → List Document
  | [] => []
  | d :: rest => plain d :: plainItems rest

/-- The documents among members without signs on their zeros. -/
def plainMembers : List (String × Document) → List (String × Document)
  | [] => []
  | (key, d) :: rest => (key, plain d) :: plainMembers rest

end

mutual

/-- Equal documents are the same up to the signs of zeros. -/
theorem equal_iff : ∀ d e : Document, equal d e = true ↔ d.plain = e.plain
  | .null, e => by cases e <;> simp [equal, plain]
  | .bool _, e => by cases e <;> simp [equal, plain]
  | .number _, e => by cases e <;> simp [equal, plain, Number.equal_iff]
  | .string _, e => by cases e <;> simp [equal, plain]
  | .array xs, e => by
      cases e with
      | array ys => simpa [equal, plain] using equalItems_iff xs ys
      | _ => simp [equal, plain]
  | .object xs, e => by
      cases e with
      | object ys => simpa [equal, plain] using equalMembers_iff xs ys
      | _ => simp [equal, plain]

theorem equalItems_iff : ∀ xs ys : List Document,
    equalItems xs ys = true ↔ plainItems xs = plainItems ys
  | [], [] => by simp [equalItems]
  | [], _ :: _ => by simp [equalItems, plainItems]
  | _ :: _, [] => by simp [equalItems, plainItems]
  | x :: xs, y :: ys => by
      rw [equalItems, Bool.and_eq_true, equal_iff x y, equalItems_iff xs ys, plainItems,
        plainItems, List.cons.injEq]

theorem equalMembers_iff : ∀ xs ys : List (String × Document),
    equalMembers xs ys = true ↔ plainMembers xs = plainMembers ys
  | [], [] => by simp [equalMembers]
  | [], _ :: _ => by simp [equalMembers, plainMembers]
  | _ :: _, [] => by simp [equalMembers, plainMembers]
  | (k, x) :: xs, (l, y) :: ys => by
      rw [equalMembers, Bool.and_eq_true, Bool.and_eq_true, equal_iff x y,
        equalMembers_iff xs ys, plainMembers, plainMembers, List.cons.injEq, Prod.mk.injEq,
        decide_eq_true_eq]

end

end Document

/-! ## Values -/

namespace Value

mutual

/-- The value without signs on its zeros. -/
def plain : Value → Value
  | .null => .null
  | .bool b => .bool b
  | .number n => .number n.plain
  | .string s => .string s
  | .list items => .list (plainItems items)
  | .object members => .object (Document.plainMembers members)

/-- The values of a list without signs on their zeros. -/
def plainItems : List Value → List Value
  | [] => []
  | v :: rest => plain v :: plainItems rest

end

mutual

/-- Equal values are the same up to the signs of zeros. -/
theorem equal_iff : ∀ v w : Value, v.equal w = true ↔ v.plain = w.plain
  | .null, w => by cases w <;> simp [equal, plain]
  | .bool _, w => by cases w <;> simp [equal, plain]
  | .number _, w => by cases w <;> simp [equal, plain, MachineNumber.equal_iff]
  | .string _, w => by cases w <;> simp [equal, plain]
  | .list xs, w => by
      cases w with
      | list ys => simpa [equal, plain] using equalItems_iff xs ys
      | _ => simp [equal, plain]
  | .object xs, w => by
      cases w with
      | object ys => simpa [equal, plain] using Document.equalMembers_iff xs ys
      | _ => simp [equal, plain]

theorem equalItems_iff : ∀ xs ys : List Value,
    equalItems xs ys = true ↔ plainItems xs = plainItems ys
  | [], [] => by simp [equalItems]
  | [], _ :: _ => by simp [equalItems, plainItems]
  | _ :: _, [] => by simp [equalItems, plainItems]
  | v :: xs, w :: ys => by
      rw [equalItems, Bool.and_eq_true, equal_iff v w, equalItems_iff xs ys, plainItems,
        plainItems, List.cons.injEq]

end

/-- Equal results are the same up to the signs of zeros; no value equals only no value. -/
theorem equalOption_iff {v w : Option Value} :
    equalOption v w = true ↔ v.map plain = w.map plain := by
  cases v <;> cases w <;> simp [equalOption, equal_iff]

@[simp] theorem equalOption_self (v : Option Value) : equalOption v v = true :=
  equalOption_iff.2 rfl

end Value

end TriggerGraph
