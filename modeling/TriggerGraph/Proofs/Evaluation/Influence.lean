import TriggerGraph.Proofs.Evaluation.Merging
import TriggerGraph.Proofs.Evaluation.Sessions

/-!
# What can influence a pass

Of its source a pass sees the documents at the paths of its providers, once as values and
once more where an operator asks whether a path exists; of its snapshot it sees the entries at
the paths watched for changes.  Two contexts that agree on these are taken for the same one:
slot by slot the nodes yield the same or fail with the same error.  All other data may be
anything.

Main results:

- Theorem `Detection.detect_congr`: a detection sees the entries at the observed paths alone.
- Theorem `Operator.run_congr`: an operator sees the source at the path of its provider alone.
- Theorem `Pass.visit_eq_of_alike`: in contexts that look alike a slot is visited alike.
- Theorem `Evaluator.unnamed_data_cannot_influence`: evaluations over contexts that look alike
  have the same result.
-/

namespace TriggerGraph

/-! ## What single parts see -/

namespace Detection

variable {previous other : Snapshot}

/-- A detection sees the entries at the observed paths alone. -/
theorem detect_congr (detection : Detection) {observed : List Observation} (now : Timestamp)
    (h : ∀ o ∈ observed, previous.find? o.1 = other.find? o.1) :
    detection.detect observed previous now = detection.detect observed other now := by
  have hnext : nextSnapshot previous now observed = nextSnapshot other now observed := by
    unfold nextSnapshot
    refine congrArg Snapshot.ofList (List.map_congr_left fun o ho => ?_)
    rw [entryOf, entryOf, h o ho]
  have hchanged : observed.countP (isChanged previous) = observed.countP (isChanged other) := by
    refine List.countP_congr fun o ho => ?_
    rw [isChanged, isChanged, h o ho]
  unfold detect
  rw [hnext, hchanged]

end Detection

/-- The document that the source of a context holds at a provider path. -/
def Context.found (context : Context) (path : String) : Option Document :=
  context.source.bind fun source => source.resolve? (Path.relativeToSource path)

namespace Operator

variable [SchemaEngine]

/-- An operator sees of the source what an existence check looks up in it. -/
theorem run_congr (operator : Operator) {node : NodeId} {inputs : List (Node × Option Value)}
    {source other : Option Document}
    (hlookup : lookup ⟨node, inputs, source⟩ = lookup ⟨node, inputs, other⟩)
    (cache : SchemaCache) :
    operator.run ⟨node, inputs, source⟩ cache = operator.run ⟨node, inputs, other⟩ cache := by
  unfold run
  split
  · rfl
  · refine congrArg (·, cache) ?_
    cases operator with
    | pathExists | pathMissing | pathNotNull => rw [apply, apply, hlookup]
    | _ => rfl

end Operator

/-! ## Contexts that look alike -/

/-- To the nodes of a graph two contexts look alike: both have an object as their source, each
provider finds the same document or none in both, and at each path watched for changes both
remember the same entry or none. -/
structure Context.LooksAlike (nodes : List Node) (left right : Context) : Prop where
  left_object : ∃ members, left.source = some (.object members)
  right_object : ∃ members, right.source = some (.object members)
  found : ∀ provider ∈ nodes, ∀ path, provider.kind = .provider path →
    left.found path = right.found path
  remembered : ∀ config ∈ nodes, config.isConfig = true → ∀ provider ∈ nodes,
    provider.id ∈ config.inputs → ∀ path, provider.kind = .provider path →
      left.previous.find? path = right.previous.find? path

namespace Pass

variable {nodes : List Node} {graph : Graph} {left right : Context} {now : Timestamp}
  {node : Node} {wired : List (Node × Option Value)}

/-- In contexts that look alike a provider finds the same. -/
theorem provided_eq_of_alike (halike : Context.LooksAlike nodes left right) (hnode : node ∈ nodes)
    {path : String} (hkind : node.kind = .provider path) :
    (Pass.mk graph left now).provided node.id path =
      (Pass.mk graph right now).provided node.id path := by
  have hfound := halike.found node hnode path hkind
  rcases halike.left_object with ⟨members, hleft⟩
  rcases halike.right_object with ⟨others, hright⟩
  simp only [Context.found, hleft, hright, Option.bind_some] at hfound
  simp [provided, sourceFor, hleft, hright, Document.isObject, Except.map, Document.extract?,
    hfound]

/-- In contexts that look alike an existence check finds the same. -/
theorem lookup_eq_of_alike (graph : Graph) (now : Timestamp)
    (halike : Context.LooksAlike nodes left right) (hwired : ∀ input ∈ wired, input.1 ∈ nodes)
    (id : NodeId) :
    Operator.lookup ((Pass.mk graph left now).operands id wired) =
      Operator.lookup ((Pass.mk graph right now).operands id wired) := by
  rcases halike.left_object with ⟨members, hleft⟩
  rcases halike.right_object with ⟨others, hright⟩
  unfold Operator.lookup operands Operands.providerPath?
  dsimp only
  cases hpath : (wired[0]?.bind fun input => input.1.providerPath?) with
  | none => rfl
  | some path =>
      rcases Option.bind_eq_some_iff.1 hpath with ⟨input, hinput, hprovider⟩
      have hkind := Node.providerPath?_eq_some_iff.1 hprovider
      have hfound := halike.found input.1 (hwired input (List.mem_of_getElem? hinput)) path hkind
      simp only [Context.found, hleft, hright, Option.bind_some] at hfound
      simp only [hleft, hright, hfound]

/-- In contexts that look alike a node that detects changes sees the same entries at the paths
it observes. -/
theorem find?_eq_of_alike (halike : Context.LooksAlike nodes left right) (hnode : node ∈ nodes)
    (hconfig : node.isConfig = true)
    (hwired : ∀ input ∈ wired, input.1 ∈ nodes ∧ input.1.id ∈ node.inputs) :
    ∀ o ∈ observations wired, left.previous.find? o.1 = right.previous.find? o.1 := by
  intro o ho
  rcases List.mem_filterMap.1 ho with ⟨input, hinput, hobserved⟩
  rcases Option.map_eq_some_iff.1 hobserved with ⟨path, hpath, rfl⟩
  rcases hwired input hinput with ⟨hprovider, hlisted⟩
  exact halike.remembered node hnode hconfig input.1 hprovider hlisted path
    (Node.providerPath?_eq_some_iff.1 hpath)

/-- What is wired to a slot are nodes that the node there lists as its inputs. -/
theorem mem_of_mem_wiredTo {pass : Pass} (hbuild : Graph.build nodes = .ok pass.graph) {slot : Nat}
    (hnode : nodes[slot]? = some node) {results : Nat → Option Value}
    {input : Node × Option Value} (hinput : input ∈ pass.wiredTo results slot) :
    input.1 ∈ nodes ∧ input.1.id ∈ node.inputs := by
  rw [wiredTo_eq hbuild hnode] at hinput
  rcases List.mem_filterMap.1 (List.of_mem_zip hinput).1 with ⟨id, hid, hsource⟩
  rcases (Graph.node?_eq_some_iff hbuild).1 hsource with ⟨hmem, rfl⟩
  exact ⟨hmem, hid⟩

variable [SchemaEngine]

/-- In contexts that look alike a node yields the same on the same inputs, and leaves the same
cache. -/
theorem calculate_eq_of_alike (graph : Graph) (now : Timestamp)
    (halike : Context.LooksAlike nodes left right) (hnode : node ∈ nodes)
    (hwired : ∀ input ∈ wired, input.1 ∈ nodes ∧ input.1.id ∈ node.inputs)
    (cache : SchemaCache) :
    (Pass.mk graph left now).calculate node wired cache =
      (Pass.mk graph right now).calculate node wired cache := by
  unfold calculate
  cases hkind : node.kind with
  | constant value => rfl
  | schema text => rfl
  | final => rfl
  | provider path =>
      dsimp only
      rw [provided_eq_of_alike halike hnode hkind]
  | logic operator =>
      have hlookup := lookup_eq_of_alike graph now halike
        (fun input hinput => (hwired input hinput).1) node.id
      have hrun := Operator.run_congr operator hlookup cache
      exact congrArg (fun ran => (ran.1.map Yield.ofValue, ran.2)) hrun
  | config detection =>
      have hconfig : node.isConfig = true := by
        rw [Node.isConfig, hkind]
      have hfind := find?_eq_of_alike halike hnode hconfig hwired
      dsimp only [report]
      rw [Detection.detect_congr detection now hfind]

/-- In contexts that look alike a slot is visited alike. -/
theorem visit_eq_of_alike (hbuild : Graph.build nodes = .ok graph)
    (halike : Context.LooksAlike nodes left right) (slot : Nat) (progress : Progress)
    (cache : SchemaCache) :
    (Pass.mk graph left now).visit slot progress cache =
      (Pass.mk graph right now).visit slot progress cache := by
  unfold visit
  rw [Graph.nodes_of_build hbuild]
  cases hslot : nodes[slot]? with
  | none => rfl
  | some node =>
      have hwired : ∀ input ∈ (Pass.mk graph left now).wiredTo progress.result? slot,
          input.1 ∈ nodes ∧ input.1.id ∈ node.inputs :=
        fun input hinput => mem_of_mem_wiredTo hbuild hslot hinput
      have hsame := calculate_eq_of_alike graph now halike
        (List.mem_of_getElem? hslot) hwired cache
      dsimp only
      rw [hsame]
      rfl

end Pass

namespace Evaluator

open TriggerGraph.Graph

/-- Evaluations of one graph at one time have the same result, be it an outcome or an error,
over any two contexts that look alike: the documents at the paths of the providers and the
entries at the paths watched for changes are all that counts.  Nor does it count which schemas
the evaluators hold, if any. -/
theorem unnamed_data_cannot_influence [SchemaEngine] {nodes : List Node} {graph : Graph}
    (hbuild : build nodes = .ok graph) {left right : Context}
    (halike : Context.LooksAlike nodes left right) {first second : Evaluator}
    (hfirst : first.Reachable) (hsecond : second.Reachable) (now : Timestamp) :
    (first.evaluate graph left now).1 = (second.evaluate graph right now).1 := by
  have hvisit : ∀ slot ∈ graph.order.sorted, ∀ progress (cache memo : SchemaCache),
      cache.Sound → memo.Sound →
        ((Pass.mk graph left now).visit slot progress cache).1 =
          ((Pass.mk graph right now).visit slot progress memo).1 := by
    intro slot _ progress cache memo hcache hmemo
    rw [Pass.visit_eq_of_alike hbuild halike]
    exact Pass.visit_fst_eq_of_sound _ hcache hmemo slot progress
  have hrun : (Pass.run ⟨graph, left, now⟩ first.schemas).1 =
      (Pass.run ⟨graph, right, now⟩ second.schemas).1 := by
    unfold Pass.run
    dsimp only
    split
    · rfl
    · exact Pass.runSlots_fst_congr hvisit hfirst.sound hsecond.sound _
  unfold evaluate
  dsimp only
  rw [hrun]

/-- A phone number that is watched for changes and asked for by path. -/
def callback : List Node :=
  [.final 5 (some 4), .logic 4 .and [3, 2], .logic 3 .pathExists [1],
    .config 2 Detection.anyChange [1], .provider 1 "source.crm.phone"]

/-- The callback with its inputs resolved and its order. -/
def callbackGraph : Graph :=
  ⟨callback, [(1, 4), (2, 3), (3, 2), (4, 1), (5, 0)],
    [[1], [2, 3], [4], [4], []], ⟨[4, 2, 3, 1, 0], false, []⟩⟩

/-- A number that is there but null, beside data and a memory that no node asks for. -/
def crowdedContext : Context :=
  ⟨some (.object [("crm", .object [("name", .string "a"), ("phone", .null)]),
      ("erp", .array [.bool true])]),
    some (.ofList [("source.erp", ⟨none, 3⟩), ("source.crm.phone", ⟨some (.string "b"), 2⟩)])⟩

/-- The same number and the same memory of it, with nothing beside. -/
def bareContext : Context :=
  ⟨some (.object [("crm", .object [("phone", .null)])]),
    some (.ofList [("source.crm.phone", ⟨some (.string "b"), 2⟩)])⟩

section BooleanSchemas

attribute [local instance] SchemaEngine.booleans

/-- The data and the memory beside the number make no difference. -/
theorem unnamed_data_cannot_influence_callback :
    Context.LooksAlike callback crowdedContext bareContext ∧
      (fresh.evaluate callbackGraph crowdedContext 7).1 =
        (fresh.evaluate callbackGraph bareContext 7).1 := by
  have hbuild : build callback = .ok callbackGraph := by rfl
  have hfresh : fresh.Reachable := .made SchemaCache.defaultCapacity fun _ => 0
  have halike : Context.LooksAlike callback crowdedContext bareContext := by
    have hpath : ∀ provider ∈ callback, ∀ path, provider.kind = .provider path →
        path = "source.crm.phone" := by
      simp [callback, Node.final, Node.logic, Node.config, Node.provider, Node.make, eq_comm]
    refine ⟨⟨_, rfl⟩, ⟨_, rfl⟩, ?_, ?_⟩
    · intro provider hprovider path hkind
      cases hpath provider hprovider path hkind
      rfl
    · intro config _ _ provider hprovider _ path hkind
      cases hpath provider hprovider path hkind
      rfl
  exact ⟨halike, unnamed_data_cannot_influence hbuild halike hfresh hfresh 7⟩

end BooleanSchemas

end Evaluator

end TriggerGraph
