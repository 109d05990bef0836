import TriggerGraph.Number.Basic

/-!
# JSON as written

A tree keeps what a JSON text says and nothing less: the members of an object
stay in their order with repetitions, a key or string that holds half of a
surrogate pair is kept without a value, and so is a number beyond the range of
binary64.  Such leaves are well-formed JSON; whoever needs their value refuses
them, and whoever skips them does not notice.
-/

namespace TriggerGraph.Json

/-- A JSON text as a tree. -/
inductive Tree where
  | null
  | bool (b : Bool)
  | number (n : Option Number)
  | string (s : Option String)
  | array (items : List Tree)
  | object (members : List (Option String × Tree))

end TriggerGraph.Json
