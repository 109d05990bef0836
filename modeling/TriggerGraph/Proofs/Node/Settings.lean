import TriggerGraph.Node

/-!
# Settings of change detection

The settings of change detection are the only part of a node that is neither its wiring nor
a literal.  Replacing them leaves the identity, the inputs and the kind of the node alone,
and two nodes that differ in nothing else become the same node when all settings are made
the same.

Main results:

- Theorem `untuned_retuned`: settings do not show in an untuned node.
- Theorem `inputs_eq_of_untuned_eq`: nodes that differ in settings only have the same inputs.
-/

namespace TriggerGraph

/-- The kind with its settings of change detection, if it has any, replaced. -/
def NodeKind.retuned (settings : Detection → Detection) : NodeKind → NodeKind
  | .constant value => .constant value
  | .provider path => .provider path
  | .logic operator => .logic operator
  | .schema text => .schema text
  | .config detection => .config (settings detection)
  | .final => .final

namespace Node

/-- The node with its settings of change detection replaced; other nodes stay as they are. -/
def retuned (settings : NodeId → Detection → Detection) (node : Node) : Node :=
  { node with kind := node.kind.retuned (settings node.id) }

/-- The node with one and the same setting for all change detection. -/
def untuned (node : Node) : Node := node.retuned fun _ _ => .anyChange

variable {settings : NodeId → Detection → Detection} {node other : Node}

@[simp] theorem retuned_id : (node.retuned settings).id = node.id :=
  rfl

@[simp] theorem retuned_inputs : (node.retuned settings).inputs = node.inputs :=
  rfl

/-- Other settings leave the path of a provider alone. -/
@[simp] theorem providerPath?_retuned :
    (node.retuned settings).providerPath? = node.providerPath? := by
  unfold providerPath? retuned NodeKind.retuned
  cases node.kind <;> rfl

@[simp] theorem isConfig_retuned : (node.retuned settings).isConfig = node.isConfig := by
  unfold isConfig retuned NodeKind.retuned
  cases node.kind <;> rfl

@[simp] theorem isFinal_retuned : (node.retuned settings).isFinal = node.isFinal := by
  unfold isFinal retuned NodeKind.retuned
  cases node.kind <;> rfl

/-- Settings do not show in an untuned node. -/
@[simp] theorem untuned_retuned : (node.retuned settings).untuned = node.untuned := by
  unfold untuned retuned NodeKind.retuned
  cases node.kind <;> rfl

/-- Nodes that differ in settings alone have the same inputs. -/
theorem inputs_eq_of_untuned_eq (h : node.untuned = other.untuned) :
    node.inputs = other.inputs := by
  have hinputs : node.untuned.inputs = other.untuned.inputs := congrArg Node.inputs h
  exact hinputs

/-- Nodes that differ in settings alone are final alike. -/
theorem isFinal_eq_of_untuned_eq (h : node.untuned = other.untuned) :
    node.isFinal = other.isFinal := by
  have hfinal := congrArg Node.isFinal h
  rwa [untuned, untuned, isFinal_retuned, isFinal_retuned] at hfinal

end Node

end TriggerGraph
