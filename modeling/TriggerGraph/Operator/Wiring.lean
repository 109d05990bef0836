import TriggerGraph.Node
import TriggerGraph.Schema.Engine

/-!
# Wiring of operators

Before a graph is used, each logic node is checked against the signature of its
operator: how many inputs there are, what they are declared to produce, and for a
few operators what kind of node an input is.

Main results:

- Theorem `checkWiring_of_bad_count`: a wrong number of inputs is reported before
  anything else.
-/

namespace TriggerGraph

/-! ## Faults -/

/-- What is wrong with the node behind an input. -/
inductive InputFault where
  | setNotConstant
  | notProvider
  | badSchema (error : SchemaError)
deriving DecidableEq

namespace InputFault

/-- The fault in words. -/
def message : InputFault → String
  | setNotConstant => "the set must be a constant array"
  | notProvider => "input must be a provider node"
  | badSchema error => error.message

end InputFault

/-- What is wrong with the wiring of a logic node. -/
inductive WiringFault where
  | arity (found : Nat)
  | inputType (index : Nat) (found : ValueType)
  | input (index : Nat) (fault : InputFault)
deriving DecidableEq

/-- A fault in the wiring of an operator on a node. -/
structure WiringError where
  node : NodeId
  operator : Operator
  fault : WiringFault
deriving DecidableEq

namespace WiringError

/-- The error in words. -/
def message (error : WiringError) : String :=
  let place := "Operator " ++ error.operator.name ++ " on node " ++ toString error.node
  match error.fault with
  | .arity found =>
    place ++ " requires " ++ error.operator.signature.arityLabel ++ " inputs, but "
      ++ toString found ++ " are connected"
  | .inputType index found =>
    place ++ " expects input " ++ toString index ++ " to be "
      ++ (error.operator.signature.inputType index).title ++ ", but it is declared as "
      ++ found.title
  | .input index fault => place ++ ", input " ++ toString index ++ ": " ++ fault.message

end WiringError

/-! ## Checks -/

namespace Operator

/-- The first input, counted from `index`, whose declared type is not accepted. -/
def typeFault? (signature : Signature) : Nat → List Node → Option WiringFault
  | _, [] => none
  | index, input :: rest =>
    if (signature.inputType index).accepts input.outputType then
      typeFault? signature (index + 1) rest
    else some (.inputType index input.outputType)

/-- The literal schema text that a node holds. -/
def schemaLiteral? (node : Node) : Option String :=
  match node.kind with
  | .schema text => some text
  | .constant (.string text) => some text
  | _ => none

/-- Whether a node is a constant list. -/
def isConstantList (node : Node) : Bool :=
  match node.kind with
  | .constant (.list _) => true
  | _ => false

variable [SchemaEngine]

/-- The fault of an input that has to be of a certain kind: the set of `IN_SET`, a
literal schema, the provider of an existence check. -/
def kindFault? (operator : Operator) (inputs : List Node) : Option WiringFault :=
  match operator with
  | .inSet =>
    if inputs[1]?.any isConstantList then none else some (.input 1 .setNotConstant)
  | .matchesSchema =>
    match inputs[1]?.bind schemaLiteral? with
    | none => none
    | some text => match Schema.compile text with
      | .ok _ => none
      | .error error => some (.input 1 (.badSchema error))
  | .pathExists | .pathMissing | .pathNotNull =>
    if inputs[0]?.any Node.isProvider then none else some (.input 0 .notProvider)
  | _ => none

/-- The first fault in the wiring of an operator to its inputs, in order. -/
def wiringFault? (operator : Operator) (inputs : List Node) : Option WiringFault :=
  if !operator.signature.admitsCount inputs.length then some (.arity inputs.length)
  else (typeFault? operator.signature 0 inputs).or (operator.kindFault? inputs)

/-- Checks the wiring of a logic node. -/
def checkWiring (operator : Operator) (node : NodeId) (inputs : List Node) :
    Except WiringError Unit :=
  match operator.wiringFault? inputs with
  | none => .ok ()
  | some fault => .error ⟨node, operator, fault⟩

/-- A wrong number of inputs is reported before anything else. -/
theorem checkWiring_of_bad_count {operator : Operator} {inputs : List Node}
    (h : operator.signature.admitsCount inputs.length = false) (node : NodeId) :
    operator.checkWiring node inputs = .error ⟨node, operator, .arity inputs.length⟩ := by
  simp [checkWiring, wiringFault?, h]

end Operator

end TriggerGraph
