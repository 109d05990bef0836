import TriggerGraph.Document.Text

/-!
# The schema engine

Documents are checked against schemas by a library of its own, of which nothing is known
here: what it compiles a schema document to, what it accepts then, and what it says of a
schema that it refuses.  All of this is one parameter of everything above, the engine, and
what is proved above holds for every engine.

A schema text is first read as a document.  A text that is none is refused by the reader of
documents, whose words are a part of the parameter as well.

Main results:

- Class `SchemaEngine`: what is asked of the library.
- Definition `Schema.compile`: the validator of a schema text, or why there is none.
-/

namespace TriggerGraph

/-- What compiles schema documents and checks documents against them. -/
class SchemaEngine where
  /-- A schema ready to check documents. -/
  Validator : Type
  /-- The schema of a document, or why there is none. -/
  compile : Document → Except String Validator
  /-- Whether a schema accepts a document. -/
  accepts : Validator → Document → Bool
  /-- What the reader of documents says of a text that it refuses. -/
  readerFault : String → String

/-- Why a text is no schema, with the words of whoever refused it. -/
inductive SchemaError where
  | notJson (detail : String)
  | notSchema (detail : String)
deriving DecidableEq

namespace SchemaError

/-- The error in words. -/
def message : SchemaError → String
  | notJson detail => "schema is not valid JSON: " ++ detail
  | notSchema detail => "schema does not compile: " ++ detail

end SchemaError

/-! ## Compilation -/

namespace Schema

variable [SchemaEngine]

/-- The schema of a text. -/
def compile (text : String) : Except SchemaError SchemaEngine.Validator :=
  match Document.ofText? text with
  | none => .error (.notJson (SchemaEngine.readerFault text))
  | some document => (SchemaEngine.compile document).mapError .notSchema

end Schema

/-! ## Boolean schemas -/

/-- The engine that knows no schemas but the two booleans, of which one accepts every document
and the other none. -/
@[reducible]
def SchemaEngine.booleans : SchemaEngine where
  Validator := Bool
  compile
    | .bool b => .ok b
    | _ => .error "only true and false are known here"
  accepts b _ := b
  readerFault _ := "no document"

end TriggerGraph
