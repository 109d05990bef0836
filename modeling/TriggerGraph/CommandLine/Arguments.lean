import TriggerGraph.Number.Digits

/-!
# Arguments of the command line

The command line takes two paths and a few options.  An option with a value is
written in two words or with an equals sign, the short one also in one word; after
two dashes everything is a path.  No option may be given twice.  The short switches
for help and version end the reading of words, so what follows one in its word does
not matter.

Main results:

- Theorem `ofWords_nil`: without words nothing is asked for.
-/

namespace TriggerGraph.CommandLine

/-! ## Options -/

/-- What a call asks for. -/
structure Arguments where
  graphPath : Option String
  contextPath : Option String
  snapshotOut : Option String
  validateOnly : Bool
  catalog : Bool
  declaredNodes : Option UInt64
  now : Option Int64
deriving DecidableEq

/-- Why words are no arguments; help is asked for rather than wrong. -/
inductive Refusal where
  | help
  | misuse
deriving DecidableEq

namespace Arguments

/-- Nothing is asked for. -/
def none : Arguments := ⟨.none, .none, .none, false, false, .none, .none⟩

/-- One more path: the graph first, then the context, and no third one. -/
def withPath (arguments : Arguments) (path : String) : Except Refusal Arguments :=
  if arguments.graphPath.isNone then .ok { arguments with graphPath := some path }
  else if arguments.contextPath.isNone then .ok { arguments with contextPath := some path }
  else .error .misuse

/-- All words as paths. -/
def withPaths (arguments : Arguments) : List String → Except Refusal Arguments
  | [] => .ok arguments
  | path :: rest => match arguments.withPath path with
    | .error refusal => .error refusal
    | .ok next => withPaths next rest

/-- A switch, given for the first time. -/
def withSwitch (arguments : Arguments) (name : String) : Except Refusal Arguments :=
  if name = "validate-only" ∧ !arguments.validateOnly then
    .ok { arguments with validateOnly := true }
  else if name = "catalog" ∧ !arguments.catalog then .ok { arguments with catalog := true }
  else if name = "help" ∨ name = "version" then .error .help
  else .error .misuse

/-- An option with its value, given for the first time. -/
def withValue (arguments : Arguments) (name value : String) : Except Refusal Arguments :=
  if name = "snapshot-out" ∧ arguments.snapshotOut.isNone then
    .ok { arguments with snapshotOut := some value }
  else if name = "declared-nodes" ∧ arguments.declaredNodes.isNone then
    match Digits.unsigned? value.toList with
    | some count => .ok { arguments with declaredNodes := some (UInt64.ofNat count) }
    | .none => .error .misuse
  else if name = "now" ∧ arguments.now.isNone then
    match Digits.signed? value.toList with
    | some now => .ok { arguments with now := some (Int64.ofInt now) }
    | .none => .error .misuse
  else .error .misuse

end Arguments

/-! ## Words -/

/-- A word by its shape. -/
inductive Word where
  | path (text : String)
  | onlyPaths
  | name (name : String)
  | assigned (name value : String)
deriving DecidableEq

namespace Word

/-- The name and the value around the first equals sign. -/
def splitAssignment (cs : List Char) : Word :=
  let name := String.ofList (cs.takeWhile (· ≠ '='))
  match cs.dropWhile (· ≠ '=') with
  | [] => .name name
  | _ :: value => .assigned name (String.ofList value)

/-- The shape of a word. -/
def ofText (text : String) : Word :=
  match text.toList with
  | ['-', '-'] => .onlyPaths
  | '-' :: '-' :: rest => splitAssignment rest
  | ['-', 's'] => .name "snapshot-out"
  | '-' :: 's' :: '=' :: value => .assigned "snapshot-out" (String.ofList value)
  | '-' :: 's' :: value => .assigned "snapshot-out" (String.ofList value)
  | '-' :: 'h' :: _ => .name "help"
  | '-' :: 'V' :: _ => .name "version"
  | ['-'] => .path text
  | '-' :: rest => .name (String.ofList ('-' :: rest))
  | _ => .path text

/-- Whether an option of this name takes a value. -/
def takesValue (name : String) : Bool :=
  name = "snapshot-out" || name = "declared-nodes" || name = "now"

/-- The value that a word is, unless it looks like an option. -/
def value? (text : String) : Option String :=
  match ofText text with
  | .path value => some value
  | _ => none

end Word

namespace Arguments

/-- Reads words one after the other on top of what was read before. -/
def readWords (arguments : Arguments) : List String → Except Refusal Arguments
  | [] => .ok arguments
  | word :: rest =>
    match Word.ofText word with
    | .onlyPaths => arguments.withPaths rest
    | .path path => match arguments.withPath path with
      | .error refusal => .error refusal
      | .ok next => readWords next rest
    | .assigned name value => match arguments.withValue name value with
      | .error refusal => .error refusal
      | .ok next => readWords next rest
    | .name name =>
      if Word.takesValue name then
        match rest with
        | [] => .error .misuse
        | following :: rest => match Word.value? following with
          | .none => .error .misuse
          | some value => match arguments.withValue name value with
            | .error refusal => .error refusal
            | .ok next => readWords next rest
      else match arguments.withSwitch name with
        | .error refusal => .error refusal
        | .ok next => readWords next rest

/-- The arguments that words spell. -/
def ofWords (words : List String) : Except Refusal Arguments := readWords none words

/-- Without words nothing is asked for. -/
theorem ofWords_nil : ofWords [] = .ok none :=
  rfl

end Arguments

end TriggerGraph.CommandLine
