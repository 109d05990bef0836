import TriggerGraph.Proofs.Document.Tree
import TriggerGraph.Value.Basic

/-!
# Documents as values and back

A value is made from a document and a document from a value by recursion over arrays; objects
are kept as they are.  Each number outside objects is held in the first form that it fits, and
held numbers are the numbers they were.  So nothing is lost on the way there, and nothing on
the way back but infinities, which no document has.

Main results:

- Theorem `Value.numbers_ofDocument`: a value has the numbers of its document, at every depth.
- Theorem `Value.ofDocument_toDocument_iff`: which values are read back from their documents.
-/

namespace TriggerGraph

/-! ## The numbers of documents and values -/

mutual

/-- All numbers of a document, at every depth, in their order. -/
def Document.numbers : Document → List Number
  | .number n => [n]
  | .array items => Document.numbersOfItems items
  | .object members => Document.numbersOfMembers members
  | _ => []

/-- All numbers of the documents of a list. -/
def Document.numbersOfItems : List Document → List Number
  | [] => []
  | d :: rest => Document.numbers d ++ Document.numbersOfItems rest

/-- All numbers of the documents among members. -/
def Document.numbersOfMembers : List (String × Document) → List Number
  | [] => []
  | (_, d) :: rest => Document.numbers d ++ Document.numbersOfMembers rest

end

namespace Value

mutual

/-- All numbers of a value, at every depth, in their order. -/
def numbers : Value → List Number
  | .number n => [n.number]
  | .list items => numbersOfItems items
  | .object members => Document.numbersOfMembers members
  | _ => []

/-- All numbers of the values of a list. -/
def numbersOfItems : List Value → List Number
  | [] => []
  | v :: rest => numbers v ++ numbersOfItems rest

end

mutual

/-- A value has the numbers of its document. -/
theorem numbers_ofDocument : ∀ d : Document, (ofDocument d).numbers = d.numbers
  | .null => rfl
  | .bool _ => rfl
  | .number n => by rw [ofDocument, numbers, n.number_held, Document.numbers]
  | .string _ => rfl
  | .array items => numbersOfItems_ofDocuments items
  | .object _ => rfl

theorem numbersOfItems_ofDocuments : ∀ items : List Document,
    numbersOfItems (ofDocuments items) = Document.numbersOfItems items
  | [] => rfl
  | d :: rest => by
      rw [ofDocuments, numbersOfItems, Document.numbersOfItems, numbers_ofDocument d,
        numbersOfItems_ofDocuments rest]

end

/-! ## What is lost -/

mutual

/-- Whether all numbers of a value outside objects are finite. -/
def FiniteOutside : Value → Prop
  | .number n => n.isFinite = true
  | .list items => FiniteItems items
  | _ => True

/-- Whether that holds of every value of a list. -/
def FiniteItems : List Value → Prop
  | [] => True
  | v :: rest => FiniteOutside v ∧ FiniteItems rest

end

mutual

/-- A value is read back from its document exactly if its numbers outside objects are finite. -/
theorem ofDocument_toDocument_iff : ∀ v : Value, ofDocument v.toDocument = v ↔ v.FiniteOutside
  | .null => iff_of_true rfl trivial
  | .bool _ => iff_of_true rfl trivial
  | .number n => by
      cases hfinite : n.isFinite <;> simp [toDocument, ofDocument, FiniteOutside, hfinite]
  | .string _ => iff_of_true rfl trivial
  | .list items => by
      rw [toDocument, ofDocument, Value.list.injEq, ofDocuments_toDocuments_iff items]
      rfl
  | .object _ => iff_of_true rfl trivial

theorem ofDocuments_toDocuments_iff : ∀ items : List Value,
    ofDocuments (toDocuments items) = items ↔ FiniteItems items
  | [] => iff_of_true rfl trivial
  | v :: rest => by
      rw [toDocuments, ofDocuments, List.cons.injEq, ofDocument_toDocument_iff v,
        ofDocuments_toDocuments_iff rest]
      rfl

end

end Value

end TriggerGraph
