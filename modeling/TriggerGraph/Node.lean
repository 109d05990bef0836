import TriggerGraph.Change
import TriggerGraph.Operator.Basic

/-!
# Nodes

A node has an identity, an ordered list of inputs and a kind with its settings.
Results live elsewhere, in the pass that computes them.

Main results:

- Theorem `Node.outputType_of_verdict`: detection and final nodes are declared boolean.
-/

namespace TriggerGraph

/-- The identity of a node, unique within a graph. -/
abbrev NodeId := UInt64

/-- What a node does. -/
inductive NodeKind where
  | constant (value : Value)
  | provider (path : String)
  | logic (operator : Operator)
  | schema (text : String)
  | config (detection : Detection)
  | final

/-- A vertex of a graph. -/
structure Node where
  id : NodeId
  name : String
  inputs : List NodeId
  kind : NodeKind

/-! ## Provider paths -/

/-- What is wrong with a provider path. -/
inductive PathFault where
  | wrongRoot
  | rootOnly
  | emptySegment
deriving DecidableEq

namespace PathFault

/-- The fault in words. -/
def message : PathFault → String
  | wrongRoot => "path must start with the 'source' segment"
  | rootOnly => "path must name at least one segment below 'source'"
  | emptySegment => "path contains an empty segment"

end PathFault

namespace Path

/-- The first segment of every provider path. -/
def sourceRoot : String := "source"

/-- Checks that a path is the root followed by segments, at least one and none empty. -/
def checkProvider (path : String) : Except PathFault Unit :=
  match segments path with
  | [] => .error .wrongRoot
  | root :: rest =>
    if root ≠ sourceRoot then .error .wrongRoot
    else if rest.isEmpty then .error .rootOnly
    else if rest.any (· = "") then .error .emptySegment
    else .ok ()

/-- What follows the characters of `front` in a text that starts with them. -/
def stripFront? : List Char → List Char → Option (List Char)
  | [], cs => some cs
  | _ :: _, [] => none
  | f :: front, c :: cs => if f = c then stripFront? front cs else none

/-- A provider path relative to the source document: without the root and the dot
behind it, if the path starts with them. -/
def relativeToSource (path : String) : String :=
  match stripFront? sourceRoot.toList path.toList with
  | none => path
  | some ('.' :: rest) => String.ofList rest
  | some rest => String.ofList rest

end Path

/-! ## Making nodes -/

namespace Node

/-- An unnamed node without inputs. -/
def make (id : NodeId) (kind : NodeKind) : Node := ⟨id, "", [], kind⟩

/-- A literal value. -/
def constant (id : NodeId) (value : Value) : Node := make id (.constant value)

/-- A node that reads the source at a path. -/
def provider (id : NodeId) (path : String) : Node := make id (.provider path)

/-- A literal schema text. -/
def schema (id : NodeId) (text : String) : Node := make id (.schema text)

/-- A node that applies an operator to its inputs. -/
def logic (id : NodeId) (operator : Operator) (inputs : List NodeId) : Node :=
  ⟨id, "", inputs, .logic operator⟩

/-- A node that detects changes of the providers among its inputs. -/
def config (id : NodeId) (detection : Detection) (inputs : List NodeId) : Node :=
  ⟨id, "", inputs, .config detection⟩

/-- The node that gives the verdict; without an input everything passes. -/
def final (id : NodeId) (input : Option NodeId) : Node := ⟨id, "", input.toList, .final⟩

/-- The node under another name. -/
def named (node : Node) (name : String) : Node := { node with name := name }

/-- The node with other inputs. -/
def withInputs (node : Node) (inputs : List NodeId) : Node := { node with inputs := inputs }

/-- Node identities with commas between them. -/
def idList (ids : List NodeId) : String := ", ".intercalate (ids.map toString)

/-! ## Properties known without data -/

/-- The declared type of the result. -/
def outputType (node : Node) : ValueType :=
  match node.kind with
  | .constant value => value.type
  | .provider _ => .any
  | .logic operator => operator.returnType
  | .schema _ => .string
  | .config _ => .boolean
  | .final => .boolean

/-- The name of the kind. -/
def kindName (node : Node) : String :=
  match node.kind with
  | .constant _ => "constant"
  | .provider _ => "provider"
  | .logic _ => "logic"
  | .schema _ => "schema"
  | .config _ => "config"
  | .final => "final"

/-- The path of a provider. -/
def providerPath? (node : Node) : Option String :=
  match node.kind with
  | .provider path => some path
  | _ => none

/-- Whether the node reads the source. -/
def isProvider (node : Node) : Bool := node.providerPath?.isSome

/-- Whether the node gives the verdict. -/
def isFinal (node : Node) : Bool :=
  match node.kind with
  | .final => true
  | _ => false

/-- Whether the node detects changes. -/
def isConfig (node : Node) : Bool :=
  match node.kind with
  | .config _ => true
  | _ => false

/-- Detection and final nodes are declared boolean. -/
theorem outputType_of_verdict {node : Node} (h : node.isConfig = true ∨ node.isFinal = true) :
    node.outputType = .boolean := by
  obtain ⟨id, name, inputs, kind⟩ := node
  cases kind <;> simp_all [outputType, isConfig, isFinal]

end Node

end TriggerGraph
