import TriggerGraph.Document.Path
import TriggerGraph.Document.Text
import TriggerGraph.Number.Machine

/-!
# Values

A value is what a node produces in one pass.  A node that produces nothing has no
value, so a null is a value only as an element of a list or as a constant.  Lists
hold values; an object stays a document, on which keys and schemas are checked.

Main results:

- Theorem `toDocument_ofDocument`: reading a document of finite numbers as a value
  loses nothing.
- Theorem `ofLeaf?_eq_none_iff`: only a null document has no value.
-/

namespace TriggerGraph

/-! ## Declared types -/

/-- What a node declares to produce or an operator to take. -/
inductive ValueType where
  | any
  | boolean
  | number
  | string
  | array
  | object
deriving DecidableEq

namespace ValueType

/-- All types. -/
def all : List ValueType := [any, boolean, number, string, array, object]

/-- The name in messages. -/
def title : ValueType → String
  | any => "Any"
  | boolean => "Boolean"
  | number => "Number"
  | string => "String"
  | array => "Array"
  | object => "Object"

/-- The name in stored form. -/
def wireName : ValueType → String
  | any => "ANY"
  | boolean => "BOOLEAN"
  | number => "NUMBER"
  | string => "STRING"
  | array => "ARRAY"
  | object => "OBJECT"

/-- The type of a stored name. -/
def ofWireName? (name : String) : Option ValueType :=
  all.find? fun t => t.wireName = name

/-- Whether something declared as `actual` may flow where `expected` is wanted. -/
def accepts (expected actual : ValueType) : Bool :=
  expected = any || actual = any || expected = actual

@[simp] theorem any_accepts (actual : ValueType) : any.accepts actual = true :=
  rfl

@[simp] theorem accepts_self (t : ValueType) : t.accepts t = true := by
  cases t <;> rfl

end ValueType

/-! ## Values and documents -/

/-- What a node produces. -/
inductive Value where
  | null
  | bool (b : Bool)
  | number (n : MachineNumber)
  | string (s : String)
  | list (items : List Value)
  | object (members : List (String × Document))

namespace Value

mutual

/-- The value of a document: numbers are held, and arrays become lists of values, at every
depth. -/
def ofDocument : Document → Value
  | .null => .null
  | .bool b => .bool b
  | .number n => .number n.held
  | .string s => .string s
  | .array items => .list (ofDocuments items)
  | .object members => .object members

/-- The values of documents. -/
def ofDocuments : List Document → List Value
  | [] => []
  | d :: rest => ofDocument d :: ofDocuments rest

end

mutual

/-- The document of a value.  An infinity, which no document holds, becomes null. -/
def toDocument : Value → Document
  | .null => .null
  | .bool b => .bool b
  | .number n => if n.isFinite then .number n.number else .null
  | .string s => .string s
  | .list items => .array (toDocuments items)
  | .object members => .object members

/-- The documents of values. -/
def toDocuments : List Value → List Document
  | [] => []
  | v :: rest => toDocument v :: toDocuments rest

end

/-- The value of a document found at a leaf, where a null is no value. -/
def ofLeaf? (d : Document) : Option Value := if d.isNull then none else some (ofDocument d)

/-- Only a null document has no value. -/
theorem ofLeaf?_eq_none_iff (d : Document) : ofLeaf? d = none ↔ d = .null := by
  cases d <;> simp [ofLeaf?, Document.isNull]

/-- Any other document has its value. -/
theorem ofLeaf?_eq_some_iff {d : Document} {value : Value} :
    ofLeaf? d = some value ↔ d ≠ .null ∧ value = ofDocument d := by
  unfold ofLeaf?
  cases d <;> simp [Document.isNull, eq_comm]

/-! ## Views -/

/-- The declared type of a constant. -/
def type : Value → ValueType
  | .null => .any
  | .bool _ => .boolean
  | .number _ => .number
  | .string _ => .string
  | .list _ => .array
  | .object _ => .object

/-- The binary64 number nearest to a numeric value. -/
def toBinary64? : Value → Option Binary64
  | .number n => some n.toBinary64
  | _ => none

/-- The text of a string. -/
def string? : Value → Option String
  | .string s => some s
  | _ => none

/-- The items of a list. -/
def list? : Value → Option (List Value)
  | .list items => some items
  | _ => none

/-- The members of an object. -/
def object? : Value → Option (List (String × Document))
  | .object members => some members
  | _ => none

/-- Whether the value is the boolean true; nothing else passes for it. -/
def isTrue : Value → Bool
  | .bool b => b
  | _ => false

/-- How a value reads in a message: strings in quotes as they are, floating-point
numbers without an exponent, lists and objects as document text. -/
def display : Value → String
  | .null => "null"
  | .bool b => if b then "true" else "false"
  | .number n => String.ofList n.displayText
  | .string s => "\"" ++ s ++ "\""
  | .list items => (toDocument (.list items)).text
  | .object members => (toDocument (.object members)).text

end Value

/-! ## Round trip -/

mutual

/-- Whether all numbers outside objects are finite. -/
def Document.FiniteOutside : Document → Prop
  | .number n => n.isFinite = true
  | .array items => Document.FiniteItems items
  | _ => True

/-- Whether that holds of every document of a list. -/
def Document.FiniteItems : List Document → Prop
  | [] => True
  | d :: rest => Document.FiniteOutside d ∧ Document.FiniteItems rest

end

namespace Value

mutual

/-- Reading a document of finite numbers as a value loses nothing. -/
theorem toDocument_ofDocument : ∀ d : Document, d.FiniteOutside → toDocument (ofDocument d) = d
  | .null, _ => rfl
  | .bool _, _ => rfl
  | .number n, h => by
      have hFinite : n.isFinite = true := h
      simp [ofDocument, toDocument, hFinite]
  | .string _, _ => rfl
  | .array items, h => by
      rw [ofDocument, toDocument, toDocuments_ofDocuments items h]
  | .object _, _ => rfl

theorem toDocuments_ofDocuments : ∀ ds : List Document, Document.FiniteItems ds →
    toDocuments (ofDocuments ds) = ds
  | [], _ => rfl
  | d :: rest, h => by
      rw [ofDocuments, toDocuments, toDocument_ofDocument d h.1, toDocuments_ofDocuments rest h.2]

end

end Value

/-- The value at a path of a document; a missing path and a null have none. -/
def Document.extract? (d : Document) (path : String) : Option Value :=
  (d.resolve? path).bind Value.ofLeaf?

end TriggerGraph
