import TriggerGraph.Proofs.Evaluation.Agreement
import TriggerGraph.Proofs.Operator.Masking

/-!
# What settings and memory cannot change

Two passes over the same source may differ in the settings of change detection, in what
they remember and in their time.  Then detections may decide differently, and so may all
that depends on them; but what they decide stays a boolean.  So a node has a value in one
of the passes exactly when it has one in the other, and up to masks it is the same value.

Main results:

- Theorem `Node.map_masked_meaning`: what a node means on masked inputs.
- Theorem `Graph.Retunes.map_masked_reading`: the readings of both passes are masked alike.
- Theorem `Evaluator.exists_outcome_of_retuned`: one pass succeeds if the other does.
-/

namespace TriggerGraph

/-! ## Single nodes -/

namespace Node

variable [SchemaEngine]

/-- Masking the inputs, the settings, the memory and the time changes what a node means only
by masking it, and no error. -/
theorem map_masked_meaning (node : Node) (context : Context) (now : Timestamp)
    (inputs : List (Node × Option Value)) :
    (node.meaning context now inputs).map (Option.map Value.masked) =
      (node.untuned.meaning ⟨context.source, none⟩ 0
        (inputs.map (Prod.map untuned (Option.map Value.masked)))).map
          (Option.map Value.masked) := by
  unfold meaning
  have hkind : node.untuned.kind = node.kind.retuned fun _ => .anyChange := rfl
  rw [hkind]
  cases node.kind with
  | constant value => cases value <;> rfl
  | schema text => rfl
  | provider path => rfl
  | logic operator =>
      have happly := Operator.map_masked_apply operator ⟨node.id, inputs, context.source⟩
      have hsome : ∀ result : Except EvaluationError Value,
          (result.map some).map (Option.map Value.masked) =
            (result.map Value.masked).map some := by
        intro result
        cases result <;> rfl
      exact (hsome _).trans ((congrArg _ happly).trans (hsome _).symm)
  | config detection => rfl
  | final =>
      rcases inputs with - | ⟨⟨input, value⟩, rest⟩
      · rfl
      · rcases value with - | value
        · rfl
        · cases value <;> rfl

end Node

/-! ## Traversals -/

/-- Two steps that agree up to masks agree up to a mask together. -/
theorem map_bind_eq {α α' β β' ε : Type} {mask : α → α'} {cover : β → β'} {x y : Except ε α}
    {f g : α → Except ε β} (hxy : x.map mask = y.map mask)
    (hfg : ∀ a b, mask a = mask b → (f a).map cover = (g b).map cover) :
    (x.bind f).map cover = (y.bind g).map cover := by
  cases x with
  | error e =>
      cases y with
      | error d =>
          cases hxy
          rfl
      | ok b => cases hxy
  | ok a =>
      cases y with
      | error d => cases hxy
      | ok b => exact hfg a b (Except.ok.inj hxy)

/-- Traversals whose single steps are masked alike are masked alike. -/
theorem map_mapM_eq {α β β' ε : Type} {mask : β → β'} {f g : α → Except ε β} {xs : List α}
    (h : ∀ x ∈ xs, (f x).map mask = (g x).map mask) :
    (xs.mapM f).map (List.map mask) = (xs.mapM g).map (List.map mask) := by
  induction xs with
  | nil => rfl
  | cons x xs ih =>
      rw [List.forall_mem_cons] at h
      rw [List.mapM_cons, List.mapM_cons]
      refine map_bind_eq h.1 fun a b hab => ?_
      refine map_bind_eq (ih h.2) fun as bs habs => ?_
      simp [pure, Except.pure, Except.map, hab, habs]

namespace Graph

/-! ## Readings -/

/-- The graphs have the same nodes up to the settings of change detection. -/
def Retunes (graph other : Graph) : Prop :=
  ∀ id, (graph.node? id).map Node.untuned = (other.node? id).map Node.untuned

variable {graph other : Graph} {context memory : Context} {now later : Timestamp}
  {hreads : WellFounded graph.Reads} {hother : WellFounded other.Reads} {id : NodeId}
  {node twin : Node}

/-- A node has a twin of the same identity that differs in settings alone. -/
theorem Retunes.exists_twin (h : graph.Retunes other) (hnode : graph.node? id = some node) :
    ∃ twin, other.node? id = some twin ∧ twin.untuned = node.untuned := by
  have hid := h id
  rw [hnode, Option.map_some, eq_comm] at hid
  exact Option.map_eq_some_iff.1 hid

/-- An identity of no node is that of no twin. -/
theorem Retunes.node?_eq_none (h : graph.Retunes other) (hnode : graph.node? id = none) :
    other.node? id = none := by
  have hid := h id
  rw [hnode, Option.map_none, eq_comm] at hid
  exact Option.map_eq_none_iff.1 hid

/-- Twins have the same inputs, up to settings and masks. -/
theorem Retunes.map_inputsWith (h : graph.Retunes other) (hnode : node.untuned = twin.untuned)
    {values others : List (Option Value)}
    (hvalues : values.map (Option.map Value.masked) = others.map (Option.map Value.masked)) :
    (graph.inputsWith node values).map (Prod.map Node.untuned (Option.map Value.masked)) =
      (other.inputsWith twin others).map (Prod.map Node.untuned (Option.map Value.masked)) := by
  unfold inputsWith
  rw [← List.zip_map, ← List.zip_map, List.map_filterMap, List.map_filterMap, hvalues,
    Node.inputs_eq_of_untuned_eq hnode, funext h]

variable [SchemaEngine]

/-- Over the same source, graphs that differ in settings only have readings that are masked
alike, whatever is remembered and at whatever time. -/
theorem Retunes.map_masked_reading (h : graph.Retunes other)
    (hsource : context.source = memory.source) (id : NodeId) :
    (graph.reading context now hreads id).map (Option.map Value.masked) =
      (other.reading memory later hother id).map (Option.map Value.masked) := by
  induction id using hreads.induction with
  | h id ih =>
      cases hnode : graph.node? id with
      | none =>
          rw [reading_of_node?_eq_none hnode, reading_of_node?_eq_none (h.node?_eq_none hnode)]
      | some node =>
          rcases h.exists_twin hnode with ⟨twin, htwin, huntuned⟩
          rw [reading_of_node?_eq_some hnode, reading_of_node?_eq_some htwin,
            Node.inputs_eq_of_untuned_eq huntuned]
          -- the inputs are the same, and by induction their values are masked alike
          have hinputs := map_mapM_eq fun input hinput => ih input ⟨node, hnode, hinput⟩
          refine map_bind_eq hinputs fun values others hvalues => ?_
          rw [Node.map_masked_meaning, Node.map_masked_meaning twin, huntuned, hsource,
            h.map_inputsWith huntuned.symm hvalues]

/-- Where one reading has a value, so has the other, and the same one up to masks. -/
theorem Retunes.exists_reading (h : graph.Retunes other)
    (hsource : context.source = memory.source) {value : Option Value}
    (hvalue : graph.reading context now hreads id = .ok value) :
    ∃ found, other.reading memory later hother id = .ok found := by
  have hmasked : (graph.reading context now hreads id).map (Option.map Value.masked) =
      (other.reading memory later hother id).map (Option.map Value.masked) :=
    h.map_masked_reading hsource id
  rw [hvalue] at hmasked
  cases hfound : other.reading memory later hother id with
  | ok found => exact ⟨found, rfl⟩
  | error error =>
      rw [hfound] at hmasked
      cases hmasked

end Graph

/-! ## Evaluations -/

namespace Evaluator

open TriggerGraph.Graph

variable [SchemaEngine] {nodes others : List Node} {graph other : Graph}
  {evaluator again : Evaluator} {context memory : Context} {now later : Timestamp}
  {outcome : Outcome}

/-- When one pass succeeds, so does every pass over the same source that differs in settings,
memory and time only. -/
theorem exists_outcome_of_retuned (hbuild : build nodes = .ok graph)
    (hcycle : graph.order.hasCycle = false) (hsound : evaluator.schemas.Sound)
    (hother : build others = .ok other) (hacyclic : other.order.hasCycle = false)
    (hagain : again.schemas.Sound) (h : graph.Retunes other)
    (hsource : context.source = memory.source)
    (hok : (evaluator.evaluate graph context now).1 = .ok outcome) :
    ∃ repeated, (again.evaluate other memory later).1 = .ok repeated := by
  have hreads := wellFounded_reads hbuild hcycle
  have hvalue := reading_of_evaluate hbuild hcycle hreads hsound hok
  rcases verdict_of_evaluate hbuild hcycle hreads hsound hok with ⟨final, hfind, -⟩
  have hfinal := (node?_eq_some_iff hbuild).2 ⟨List.mem_of_find?_eq_some hfind, rfl⟩
  rcases h.exists_twin hfinal with ⟨twin, htwin, huntuned⟩
  refine exists_outcome_of_readings hother hacyclic (wellFounded_reads hother hacyclic) hagain
    ⟨twin, ?_, ?_⟩ ?_
  · exact ((node?_eq_some_iff hother).1 htwin).1
  · rw [Node.isFinal_eq_of_untuned_eq huntuned]
    exact List.find?_some hfind
  · intro node _
    exact h.exists_reading hsource (hvalue node.id)

end Evaluator

end TriggerGraph
