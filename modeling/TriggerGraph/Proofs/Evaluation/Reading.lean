import TriggerGraph.Evaluation.Evaluator
import TriggerGraph.Proofs.Graph.Building

/-!
# The recursive reading of a graph

A graph without a cycle can be read without slots, without an order and without a
schema cache: the value of an identity is what its node means on the values of the
inputs that it lists, which are read the same way.  The recursion follows the inputs
and ends because no chain of inputs is endless.

Main results:

- Theorem `wellFounded_reads`: a built graph that reports no cycle can be read.
- Theorem `reading_eq_meaning`: the reading of a node whose inputs have values is what
  the node means on them.
- Theorem `reading_congr`: the reading depends on the nodes and on what they mean alone.
- Theorem `exists_values_of_reading_eq_ok`: a node has a value only if its inputs do.
-/

namespace TriggerGraph

open Relation

/-! ## Single nodes -/

namespace Node

theorem exists_path_of_isProvider {node : Node} (h : node.isProvider = true) :
    ∃ path, node.kind = .provider path := by
  unfold isProvider providerPath? at h
  split at h
  · rename_i path hkind
    exact ⟨path, hkind⟩
  · cases h

theorem providerPath?_eq_some_iff {node : Node} {path : String} :
    node.providerPath? = some path ↔ node.kind = .provider path := by
  unfold providerPath?
  cases node.kind <;> simp

theorem exists_detection_of_isConfig {node : Node} (h : node.isConfig = true) :
    ∃ detection, node.kind = .config detection := by
  unfold isConfig at h
  split at h
  · rename_i detection hkind
    exact ⟨detection, hkind⟩
  · cases h

theorem kind_of_isFinal {node : Node} (h : node.isFinal = true) : node.kind = .final := by
  unfold isFinal at h
  split at h
  · assumption
  · cases h

variable [SchemaEngine]

/-- What a node means on its input nodes with their values in wiring order. -/
def meaning (context : Context) (now : Timestamp) (node : Node)
    (inputs : List (Node × Option Value)) : Except EvaluationError (Option Value) :=
  match node.kind with
  | .constant .null => .ok none
  | .constant value => .ok (some value)
  | .schema text => .ok (some (.string text))
  | .provider path =>
    match context.source with
    | none => .error (.sourceMissing node.id)
    | some (.object members) =>
      .ok ((Document.object members).extract? (Path.relativeToSource path))
    | some source => .error (.sourceNotObject node.id source)
  | .logic operator => (operator.apply ⟨node.id, inputs, context.source⟩).map some
  | .config detection =>
    let observed := inputs.filterMap fun input =>
      input.1.providerPath?.map fun path => (path, input.2)
    .ok (some (.bool (detection.detect observed context.previous now).fired))
  | .final =>
    match inputs with
    | [] => .ok (some (.bool true))
    | (_, some (.bool verdict)) :: _ => .ok (some (.bool verdict))
    | (_, other) :: _ => .error (.verdictNotBoolean node.id (other.map Value.type))

end Node

namespace Graph

/-! ## Computations that may fail -/

/-- A computation in two steps succeeds if both do. -/
theorem bind_eq_ok_iff {α β ε : Type} {x : Except ε α} {f : α → Except ε β} {b : β} :
    x.bind f = .ok b ↔ ∃ a, x = .ok a ∧ f a = .ok b := by
  cases x <;> simp [Except.bind]

/-- A traversal succeeds with the results of its single steps. -/
theorem mapM_eq_ok_iff {α β ε : Type} {f : α → Except ε β} {xs : List α} {ys : List β} :
    xs.mapM f = .ok ys ↔ List.Forall₂ (fun x y => f x = .ok y) xs ys := by
  induction xs generalizing ys with
  | nil => cases ys <;> simp [pure, Except.pure]
  | cons x xs ih =>
      have hbind : (x :: xs).mapM f =
          (f x).bind fun y => (xs.mapM f).bind fun rest => .ok (y :: rest) := List.mapM_cons
      rw [hbind, bind_eq_ok_iff, List.forall₂_cons_left_iff]
      constructor
      · rintro ⟨y, hy, hrest⟩
        rcases bind_eq_ok_iff.1 hrest with ⟨rest, hmap, hcons⟩
        cases hcons
        exact ⟨y, rest, hy, ih.1 hmap, rfl⟩
      · rintro ⟨y, rest, hy, hmap, rfl⟩
        exact ⟨y, hy, bind_eq_ok_iff.2 ⟨rest, ih.2 hmap, rfl⟩⟩

theorem mapM_congr {α β ε : Type} {f g : α → Except ε β} {xs : List α}
    (h : ∀ x ∈ xs, f x = g x) : xs.mapM f = xs.mapM g := by
  induction xs with
  | nil => rfl
  | cons x xs ih =>
      rw [List.forall_mem_cons] at h
      rw [List.mapM_cons, List.mapM_cons, h.1, ih h.2]

/-! ## The reading -/

variable {graph : Graph}

/-- The node of an identity lists another identity as an input. -/
def Reads (graph : Graph) (input id : NodeId) : Prop :=
  ∃ node, graph.node? id = some node ∧ input ∈ node.inputs

/-- The input nodes of a node with given values. -/
def inputsWith (graph : Graph) (node : Node) (values : List (Option Value)) :
    List (Node × Option Value) :=
  (node.inputs.filterMap graph.node?).zip values

/-- The nodes wired to a node are those that its inputs name. -/
theorem map_fst_inputsWith {node : Node} {values : List (Option Value)}
    (h : values.length = node.inputs.length) :
    (graph.inputsWith node values).map Prod.fst = node.inputs.filterMap graph.node? := by
  have hle := List.length_filterMap_le graph.node? node.inputs
  exact List.map_fst_zip (by omega)

/-- A built graph that reports no cycle can be read. -/
theorem wellFounded_reads {nodes : List Node} (hbuild : build nodes = .ok graph)
    (hcycle : graph.order.hasCycle = false) : WellFounded graph.Reads := by
  rw [order_of_build hbuild, TopologicalOrder.hasCycle_eq_false_iff] at hcycle
  let place : NodeId → Nat := fun id => (Wiring.slotOf? nodes id).getD nodes.length
  have hfeeds : ∀ input id, graph.Reads input id →
      Wiring.Feeds nodes (place input) (place id) := by
    rintro input id ⟨node, hnode, hinput⟩
    rcases (node?_eq_some_iff hbuild).1 hnode with ⟨hmem, rfl⟩
    rcases List.mem_iff_getElem?.1 hmem with ⟨slot, hslot⟩
    rcases (isOk_build_iff.1 ⟨graph, hbuild⟩).2 node hmem input hinput with ⟨source, hsource⟩
    have hplace := slotOf?_of_nodup (nodup_of_build hbuild) hslot
    refine ⟨node, ?_, input, hinput, ?_⟩
    · simpa [place, hplace] using hslot
    · simp [place, hsource]
  exact Subrelation.wf (fun {input id} h => hfeeds input id h) (InvImage.wf place hcycle)

variable [SchemaEngine]

/-- The value of an identity: what its node means on the values of its inputs.  The
first input without one, in wiring order, passes its error on. -/
def reading (graph : Graph) (context : Context) (now : Timestamp)
    (hreads : WellFounded graph.Reads) (id : NodeId) : Except EvaluationError (Option Value) :=
  match _hnode : graph.node? id with
  | none => .ok none
  | some node => do
    let values ← node.inputs.attach.mapM fun input =>
      graph.reading context now hreads input.1
    node.meaning context now ((node.inputs.filterMap graph.node?).zip values)
termination_by hreads.wrap id
decreasing_by exact ⟨node, _hnode, input.2⟩

variable {context : Context} {now : Timestamp} {hreads : WellFounded graph.Reads}

/-- An identity without a node has no value. -/
theorem reading_of_node?_eq_none {id : NodeId} (h : graph.node? id = none) :
    graph.reading context now hreads id = .ok none := by
  rw [reading]
  split
  · rfl
  · rename_i node hnode
    rw [h] at hnode
    cases hnode

/-- The reading of a node is its meaning on the readings of its inputs. -/
theorem reading_of_node?_eq_some {id : NodeId} {node : Node} (h : graph.node? id = some node) :
    graph.reading context now hreads id =
      (node.inputs.mapM (graph.reading context now hreads)).bind fun values =>
        node.meaning context now (graph.inputsWith node values) := by
  rw [reading]
  split
  · rename_i hnode
    rw [h] at hnode
    cases hnode
  · rename_i other hnode
    rw [h] at hnode
    cases hnode
    rw [List.mapM_subtype (fun input hinput => rfl), List.unattach_attach]
    rfl

/-- Graphs with the same nodes read an identity alike if all that it depends on means the same
in both passes. -/
theorem reading_congr {other : Graph} {memory : Context} {later : Timestamp}
    {hother : WellFounded other.Reads} (hnodes : graph.node? = other.node?) {id : NodeId}
    (hmeaning : ∀ source node, ReflTransGen graph.Reads source id →
      graph.node? source = some node → ∀ inputs,
        node.meaning context now inputs = node.meaning memory later inputs) :
    graph.reading context now hreads id = other.reading memory later hother id := by
  induction id using hreads.induction with
  | h id ih =>
      cases hnode : graph.node? id with
      | none =>
          have hnone : other.node? id = none := by rw [← hnodes, hnode]
          rw [reading_of_node?_eq_none hnode, reading_of_node?_eq_none hnone]
      | some node =>
          have hsome : other.node? id = some node := by rw [← hnodes, hnode]
          have hinputs : node.inputs.mapM (graph.reading context now hreads) =
              node.inputs.mapM (other.reading memory later hother) := by
            refine mapM_congr fun input hinput => ?_
            have hedge : graph.Reads input id := ⟨node, hnode, hinput⟩
            exact ih input hedge fun source sourceNode hreach =>
              hmeaning source sourceNode (hreach.tail hedge)
          rw [reading_of_node?_eq_some hnode, reading_of_node?_eq_some hsome, hinputs]
          refine congrArg _ (funext fun values => ?_)
          rw [hmeaning id node ReflTransGen.refl hnode, inputsWith, inputsWith, hnodes]

/-- The reading of a node whose inputs have values is what the node means on them. -/
theorem reading_eq_meaning {id : NodeId} {node : Node} (h : graph.node? id = some node)
    {values : List (Option Value)}
    (hvalues : List.Forall₂ (fun input value =>
      graph.reading context now hreads input = .ok value) node.inputs values) :
    graph.reading context now hreads id =
      node.meaning context now (graph.inputsWith node values) := by
  rw [reading_of_node?_eq_some h, mapM_eq_ok_iff.2 hvalues]
  rfl

/-- A node has a value only if its inputs do. -/
theorem exists_values_of_reading_eq_ok {id : NodeId} {node : Node}
    (h : graph.node? id = some node) {value : Option Value}
    (hvalue : graph.reading context now hreads id = .ok value) :
    ∃ values, List.Forall₂ (fun input value =>
        graph.reading context now hreads input = .ok value) node.inputs values ∧
      node.meaning context now (graph.inputsWith node values) = .ok value := by
  rw [reading_of_node?_eq_some h] at hvalue
  rcases bind_eq_ok_iff.1 hvalue with ⟨values, hvalues, hmeaning⟩
  exact ⟨values, mapM_eq_ok_iff.1 hvalues, hmeaning⟩

/-! ## Inputs with values -/

/-- The inputs of a node stand with their nodes and their values, in wiring order. -/
def Wired (graph : Graph) (context : Context) (now : Timestamp)
    (hreads : WellFounded graph.Reads) (node : Node) (entries : List (Node × Option Value)) :
    Prop :=
  List.Forall₂ (fun input entry => graph.node? input = some entry.1 ∧
    graph.reading context now hreads input = .ok entry.2) node.inputs entries

/-- In a built graph a node is wired to the values of its inputs. -/
theorem wired_inputsWith {nodes : List Node} (hbuild : build nodes = .ok graph) {node : Node}
    (hnode : node ∈ nodes) {values : List (Option Value)}
    (hvalues : List.Forall₂ (fun input value =>
      graph.reading context now hreads input = .ok value) node.inputs values) :
    graph.Wired context now hreads node (graph.inputsWith node values) := by
  have hknown : ∀ input ∈ node.inputs, ∃ source, graph.node? input = some source :=
    fun input hinput => exists_node?_of_mem_inputs hbuild hnode hinput
  unfold Wired inputsWith
  generalize node.inputs = inputs at hvalues hknown
  induction hvalues with
  | nil => exact List.Forall₂.nil
  | @cons input value inputs values hvalue _ ih =>
      rcases hknown input List.mem_cons_self with ⟨source, hsource⟩
      rw [List.filterMap_cons_some hsource, List.zip_cons_cons]
      refine List.Forall₂.cons ⟨hsource, hvalue⟩ (ih ?_)
      exact fun other hother => hknown other (List.mem_cons_of_mem input hother)

end Graph

end TriggerGraph
