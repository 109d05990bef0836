import TriggerGraph.Proofs.Evaluation.Agreement
import TriggerGraph.Proofs.Graph.Acceptance
import TriggerGraph.Proofs.Operator.Wiring

/-!
# Accepted graphs do not go wrong

Validation looks at declared types only.  Since each node yields a value of the type it
is declared with, what was checked before the first pass holds in every pass: final
nodes receive booleans, existence checks stand behind a provider, and schemas given
literally compile.  What is left to fail is the source, and a schema that only the pass
gets to know.

Main results:

- Theorem `Validation.mayFail_of_fails`: what can go wrong on a node of an accepted graph.
- Theorem `Validation.accepted_does_not_go_wrong`: evaluation of an accepted graph fails
  in no other way, and not at all on an object with literal schemas.
-/

namespace TriggerGraph

/-! ## What nodes mean -/

namespace Node

variable {context : Context} {now : Timestamp} {node : Node}
  {inputs : List (Node × Option Value)} {value : Option Value} {error : EvaluationError}
  [SchemaEngine]

/-- A logic node means what its operator computes. -/
theorem meaning_of_logic {operator : Operator} (hkind : node.kind = .logic operator) :
    node.meaning context now inputs =
      (operator.apply ⟨node.id, inputs, context.source⟩).map some := by
  unfold meaning
  rw [hkind]

/-- A node that holds a text literally means this text. -/
theorem meaning_of_schemaLiteral? {text : String}
    (htext : Operator.schemaLiteral? node = some text) :
    node.meaning context now inputs = .ok (some (.string text)) := by
  unfold Operator.schemaLiteral? at htext
  unfold meaning
  split at htext
  · rename_i hkind
    cases htext
    rw [hkind]
  · rename_i hkind
    cases htext
    rw [hkind]
  · cases htext

/-- A provider means something only if the source is an object, and else fails for want
of one. -/
theorem meaning_of_isProvider (hprovider : node.isProvider = true) :
    (∃ source, context.source = some source ∧ source.isObject = true ∧
        ∃ value, node.meaning context now inputs = .ok value) ∨
      (context.source = none ∧
        node.meaning context now inputs = .error (.sourceMissing node.id)) ∨
      ∃ source, context.source = some source ∧ source.isObject = false ∧
        node.meaning context now inputs = .error (.sourceNotObject node.id source) := by
  rcases exists_path_of_isProvider hprovider with ⟨path, hkind⟩
  unfold meaning
  rw [hkind]
  cases hsource : context.source with
  | none => exact Or.inr (Or.inl ⟨rfl, rfl⟩)
  | some source =>
      cases source with
      | object members => exact Or.inl ⟨_, rfl, rfl, _, rfl⟩
      | _ => exact Or.inr (Or.inr ⟨_, rfl, rfl, rfl⟩)

/-- A final node whose first input, if there is one, is a boolean means a boolean. -/
theorem meaning_of_isFinal (hfinal : node.isFinal = true)
    (hfirst : ∀ entry rest, inputs = entry :: rest → ∃ b, entry.2 = some (.bool b)) :
    ∃ verdict, node.meaning context now inputs = .ok (some (.bool verdict)) := by
  unfold meaning
  rw [kind_of_isFinal hfinal]
  cases inputs with
  | nil => exact ⟨true, rfl⟩
  | cons entry rest =>
      rcases hfirst entry rest rfl with ⟨b, hb⟩
      rcases entry with ⟨source, value⟩
      cases hb
      exact ⟨b, rfl⟩

end Node

/-! ## What may go wrong -/

namespace Node

/-- The errors that validation leaves open for a node: a provider finds no source, or a
source that is no object; a schema comes from a provider or is null. -/
inductive MayFail (nodes : List Node) (context : Context) (node : Node)
    (error : EvaluationError) : Prop
  | noSource (hprovider : node.isProvider = true) (hsource : context.source = none)
      (hkind : error.kind = .dataNotFound)
  | noObject (hprovider : node.isProvider = true) (source : Document)
      (hsource : context.source = some source) (hobject : source.isObject = false)
      (hkind : error.kind = .typeMismatch)
  | noSchema (hmatches : node.kind = .logic .matchesSchema) (second : Node)
      (hsecond : second ∈ nodes) (hinput : node.inputs[1]? = some second.id)
      (hopen : second.isProvider = true ∨ second.kind = .constant .null)
      (hkind : error.kind = .typeMismatch ∨ error.kind = .executionFailed)

namespace MayFail

variable {nodes : List Node} {context : Context} {node : Node} {error : EvaluationError}

/-- No error is left open for final nodes and existence checks. -/
theorem kind_cases (h : node.MayFail nodes context error) :
    (∃ path, node.kind = .provider path) ∨ node.kind = .logic .matchesSchema := by
  cases h with
  | noSource hprovider => exact Or.inl (exists_path_of_isProvider hprovider)
  | noObject hprovider => exact Or.inl (exists_path_of_isProvider hprovider)
  | noSchema hmatches => exact Or.inr hmatches

/-- Only nodes that are not final may fail so. -/
theorem isFinal_eq_false (h : node.MayFail nodes context error) : node.isFinal = false := by
  unfold isFinal
  rcases h.kind_cases with ⟨path, hkind⟩ | hkind <;> rw [hkind]

/-- No existence check may fail so. -/
theorem checksExistence_eq_false (h : node.MayFail nodes context error) {operator : Operator}
    (hoperator : node.kind = .logic operator) : operator.checksExistence = false := by
  rcases h.kind_cases with ⟨path, hkind⟩ | hkind
  · rw [hkind] at hoperator
    cases hoperator
  · rw [hkind] at hoperator
    cases hoperator
    rfl

end MayFail

end Node

namespace Validation

variable {nodes : List Node} {declared : Nat} {graph : Graph} {context : Context}
  {now : Timestamp} {hreads : WellFounded graph.Reads} {node : Node}
  {entries : List (Node × Option Value)} {error : EvaluationError}

/-! ## What literal schemas leave open -/

/-- With an object as source, or no provider, and schemas given literally, no error is
left open. -/
theorem not_mayFail_of_literal (hbuild : Graph.build nodes = .ok graph)
    (hsource : (∃ source, context.source = some source ∧ source.isObject = true) ∨
      ∀ node ∈ nodes, node.isProvider = false)
    (hschemas : ∀ node ∈ nodes, node.kind = .logic .matchesSchema →
      ∃ second ∈ nodes, node.inputs[1]? = some second.id ∧
        (Operator.schemaLiteral? second).isSome = true)
    (hnode : node ∈ nodes) : ¬ node.MayFail nodes context error := by
  intro h
  have hobject : node.isProvider = true →
      ∃ source, context.source = some source ∧ source.isObject = true := by
    intro hprovider
    rcases hsource with hobject | hnone
    · exact hobject
    · exact absurd (hnone node hnode) (by simp [hprovider])
  cases h with
  | noSource hprovider hmissing =>
      rcases hobject hprovider with ⟨source, hsome, -⟩
      cases hsome.symm.trans hmissing
  | noObject hprovider source hfound hnot =>
      rcases hobject hprovider with ⟨other, hsome, hisObject⟩
      cases hsome.symm.trans hfound
      cases hisObject.symm.trans hnot
  | noSchema hmatches second hmem hinput hopen =>
      rcases hschemas node hnode hmatches with ⟨literal, hliteral, hsame, htext⟩
      have hid : second.id = literal.id := Option.some.inj (hinput.symm.trans hsame)
      cases Graph.eq_of_id_eq hbuild hmem hliteral hid
      rcases hopen with hprovider | hnull
      · rcases Node.exists_path_of_isProvider hprovider with ⟨path, hkind⟩
        simp [Operator.schemaLiteral?, hkind] at htext
      · simp [Operator.schemaLiteral?, hnull] at htext

/-! ## Nodes of accepted graphs -/

section AnyEngine

variable [SchemaEngine]

/-- A final node receives a boolean or nothing. -/
theorem meaning_of_final (h : validate nodes declared = [])
    (hbuild : Graph.build nodes = .ok graph) (hnode : node ∈ nodes)
    (hwired : graph.Wired context now hreads node entries) (hfinal : node.isFinal = true) :
    ∃ verdict, node.meaning context now entries = .ok (some (.bool verdict)) := by
  refine Node.meaning_of_isFinal hfinal ?_
  rintro entry rest rfl
  rcases List.forall₂_cons_right_iff.1 hwired with ⟨input, others, ⟨hsource, hvalue⟩, -, hinputs⟩
  have htype := outputType_of_final_input h hbuild hnode hfinal hinputs hsource
  exact Graph.exists_bool_of_reading hsource htype hvalue

/-- An existence check finds its path and its source. -/
theorem lookup_ne_error {operator : Operator}
    (hwiring : operator.wiringFault? (entries.map Prod.fst) = none)
    (hwired : graph.Wired context now hreads node entries)
    (hchecks : operator.checksExistence = true) :
    Operator.lookup ⟨node.id, entries, context.source⟩ ≠ .error error := by
  intro herror
  rcases Operator.exists_provider_of_checksExistence hwiring hchecks with
    ⟨provider, rest, hfirst, hprovider⟩
  rcases List.map_eq_cons_iff.1 hfirst with ⟨entry, others, rfl, rfl, -⟩
  rcases List.forall₂_cons_right_iff.1 hwired with ⟨input, -, ⟨hsource, hvalue⟩, -, -⟩
  rcases Graph.exists_values_of_reading_eq_ok hsource hvalue with ⟨values, -, hmeaning⟩
  rcases Operator.lookup_eq_error herror with hpath | hnone
  · have hsome : entry.1.providerPath? = none := hpath
    rw [Node.isProvider, hsome] at hprovider
    cases hprovider
  · rcases Node.meaning_of_isProvider hprovider with ⟨source, hsome, -⟩ | ⟨-, hfail⟩ | hfail
    · cases hsome.symm.trans hnone
    · cases hfail.symm.trans hmeaning
    · rcases hfail with ⟨source, -, -, hfail⟩
      cases hfail.symm.trans hmeaning

/-- A schema check fails only when its schema comes from a provider or is null. -/
theorem mayFail_of_applySchema (hbuild : Graph.build nodes = .ok graph)
    (hkind : node.kind = .logic .matchesSchema)
    (hwiring : Operator.wiringFault? .matchesSchema (entries.map Prod.fst) = none)
    (hwired : graph.Wired context now hreads node entries)
    (herror : Operator.applySchema ⟨node.id, entries, context.source⟩ = .error error) :
    error.node? = some node.id ∧ node.MayFail nodes context error := by
  rcases Operator.exists_inputs_of_matchesSchema hwiring with ⟨first, _, hinputNodes, hcases⟩
  rcases List.map_eq_cons_iff.1 hinputNodes with ⟨entry, rest, rfl, -, hrestNodes⟩
  rcases List.map_eq_cons_iff.1 hrestNodes with ⟨⟨second, value⟩, others, rfl, rfl, -⟩
  dsimp only at hcases
  rcases List.forall₂_cons_right_iff.1 hwired with ⟨left, rights, -, hwiredRest, hinputs⟩
  rcases List.forall₂_cons_right_iff.1 hwiredRest with
    ⟨right, tail, ⟨hsecond, hvalue⟩, -, rfl⟩
  rcases (Graph.node?_eq_some_iff hbuild).1 hsecond with ⟨hmem, hid⟩
  have hinput : node.inputs[1]? = some second.id := by
    rw [hinputs, hid]
    rfl
  have hfails : ∀ text schema, Operator.schemaLiteral? second = some text →
      Schema.compile text ≠ .ok schema := by
    intro text schema hliteral hcompile
    rcases Graph.exists_values_of_reading_eq_ok hsecond hvalue with ⟨values, -, hmeaning⟩
    rw [Node.meaning_of_schemaLiteral? hliteral] at hmeaning
    cases hmeaning
    rcases Operator.applySchema_eq_error herror with
      ⟨found, -, hno⟩ | ⟨other, reason, -, hsome, hbad⟩
    · exact hno text rfl
    · cases hsome
      cases hcompile.symm.trans hbad
  have hopen : second.isProvider = true ∨ second.kind = .constant .null := by
    rcases hcases with hprovider | hnull | ⟨text, schema, hliteral, hcompile⟩
    · exact Or.inl hprovider
    · exact Or.inr hnull
    · exact absurd hcompile (hfails text schema hliteral)
  rcases Operator.applySchema_eq_error herror with ⟨found, rfl, -⟩ | ⟨other, reason, rfl, -, -⟩
  · exact ⟨rfl, .noSchema hkind second hmem hinput hopen (Or.inl rfl)⟩
  · exact ⟨rfl, .noSchema hkind second hmem hinput hopen (Or.inr rfl)⟩

/-- What can go wrong on a node of an accepted graph. -/
theorem mayFail_of_fails (h : validate nodes declared = [])
    (hbuild : Graph.build nodes = .ok graph) (hnode : node ∈ nodes)
    (hfails : Pass.Fails ⟨graph, context, now⟩ hreads node error) :
    error.node? = some node.id ∧ node.MayFail nodes context error := by
  rcases hfails with ⟨values, hvalues, herror⟩
  have hwired := Graph.wired_inputsWith hbuild hnode hvalues
  have hfirsts : (graph.inputsWith node values).map Prod.fst =
      node.inputs.filterMap graph.node? := Graph.map_fst_inputsWith hvalues.length_eq.symm
  dsimp only at herror
  cases hkind : node.kind with
  | constant value =>
      unfold Node.meaning at herror
      rw [hkind] at herror
      cases value <;> cases herror
  | provider path =>
      have hprovider : node.isProvider = true := by
        rw [Node.isProvider, Node.providerPath?, hkind]
        rfl
      rcases Node.meaning_of_isProvider hprovider with hok | ⟨hsource, hfail⟩ | hfail
      · rcases hok with ⟨_, -, -, value, hok⟩
        cases hok.symm.trans herror
      · cases hfail.symm.trans herror
        exact ⟨rfl, .noSource hprovider hsource rfl⟩
      · rcases hfail with ⟨source, hsource, hobject, hfail⟩
        cases hfail.symm.trans herror
        exact ⟨rfl, .noObject hprovider source hsource hobject rfl⟩
  | logic operator =>
      have hwiring := wiringFault?_of_accepted h hbuild hnode hkind
      rw [← hfirsts] at hwiring
      rw [Node.meaning_of_logic hkind, Operator.map_eq_error_iff] at herror
      rcases Operator.apply_eq_error herror with ⟨rfl, hschema⟩ | ⟨hchecks, hlookup⟩
      · exact mayFail_of_applySchema hbuild hkind hwiring hwired hschema
      · exact absurd hlookup (lookup_ne_error hwiring hwired hchecks)
  | schema text =>
      unfold Node.meaning at herror
      rw [hkind] at herror
      cases herror
  | config detection =>
      unfold Node.meaning at herror
      rw [hkind] at herror
      cases herror
  | final =>
      have hfinal : node.isFinal = true := by
        rw [Node.isFinal, hkind]
      rcases meaning_of_final h hbuild hnode hwired hfinal with ⟨verdict, hok⟩
      cases hok.symm.trans herror

/-! ## Passes over accepted graphs -/

/-- Every accepted list compiles, and a pass over its graph fails only with an error that
validation leaves open for the node concerned: never with a cycle, for want of a final
node, on a final node or on an existence check.  With an object as source, or without
providers, and with literal schemas it succeeds. -/
theorem accepted_does_not_go_wrong (h : validate nodes declared = []) :
    ∃ graph, Graph.compileNodes nodes = .ok graph ∧ Graph.build nodes = .ok graph ∧
      ∀ evaluator : Evaluator, evaluator.Reachable → ∀ (context : Context) (now : Timestamp),
        (∀ error, (evaluator.evaluate graph context now).1 = .error error →
          (∃ node ∈ nodes, error.node? = some node.id ∧ node.MayFail nodes context error) ∧
            (∀ ids, error ≠ .cycle ids) ∧ error ≠ .missingFinalNode ∧
              ∀ node ∈ nodes, error.node? = some node.id → node.isFinal = false ∧
                ∀ operator, node.kind = .logic operator → operator.checksExistence = false) ∧
          ((∃ source, context.source = some source ∧ source.isObject = true) ∨
              (∀ node ∈ nodes, node.isProvider = false) →
            (∀ node ∈ nodes, node.kind = .logic .matchesSchema →
              ∃ second ∈ nodes, node.inputs[1]? = some second.id ∧
                (Operator.schemaLiteral? second).isSome = true) →
              ∃ outcome, (evaluator.evaluate graph context now).1 = .ok outcome) := by
  rcases exists_compileNodes_of_accepted h with ⟨graph, hcompile, hbuild⟩
  refine ⟨graph, hcompile, hbuild, ?_⟩
  intro evaluator hreachable context now
  have hcycle : graph.order.hasCycle = false := by
    rw [Graph.order_of_build hbuild]
    exact hasCycle_of_accepted h
  have hfailure : ∀ error, (evaluator.evaluate graph context now).1 = .error error →
      ∃ node ∈ nodes, error.node? = some node.id ∧ node.MayFail nodes context error := by
    intro error herror
    rcases Evaluator.fails_of_evaluate_eq_error hbuild hcycle
      (Graph.wellFounded_reads hbuild hcycle) hreachable.sound (exists_final_of_accepted h)
      herror with ⟨node, hnode, hfails⟩
    exact ⟨node, hnode, mayFail_of_fails h hbuild hnode hfails⟩
  constructor
  · intro error herror
    rcases hfailure error herror with ⟨node, hnode, hon, hmay⟩
    refine ⟨⟨node, hnode, hon, hmay⟩, ?_, ?_, ?_⟩
    · rintro ids rfl
      cases hon
    · rintro rfl
      cases hon
    · intro other hother hsame
      have hid : node.id = other.id := Option.some.inj (hon.symm.trans hsame)
      cases Graph.eq_of_id_eq hbuild hnode hother hid
      exact ⟨hmay.isFinal_eq_false, fun operator => hmay.checksExistence_eq_false⟩
  · intro hsource hschemas
    cases hresult : (evaluator.evaluate graph context now).1 with
    | ok outcome => exact ⟨outcome, rfl⟩
    | error error =>
        rcases hfailure error hresult with ⟨node, hnode, -, hmay⟩
        exact absurd hmay (not_mayFail_of_literal hbuild hsource hschemas hnode)

end AnyEngine

/-- A value that is watched for changes and checked against a literal schema. -/
def watch : List Node :=
  [.final 5 (some 4), .logic 4 .and [2, 3], .config 2 Detection.anyChange [1],
    .logic 3 .matchesSchema [1, 6], .provider 1 "source.armed", .schema 6 "true"]

section BooleanSchemas

attribute [local instance] SchemaEngine.booleans

/-- The watch is accepted and does not go wrong on an object. -/
theorem watch_does_not_go_wrong :
    validate watch 6 = [] ∧ ∃ graph, Graph.compileNodes watch = .ok graph ∧
      ∃ outcome, (Evaluator.fresh.evaluate graph
        (.ofSource (.object [("armed", .bool true)])) 5).1 = .ok outcome := by
  have haccepted : validate watch 6 = [] := by rfl
  rcases accepted_does_not_go_wrong haccepted with ⟨graph, hcompile, -, hpasses⟩
  refine ⟨haccepted, graph, hcompile, ?_⟩
  have hfresh : Evaluator.fresh.Reachable :=
    .made SchemaCache.defaultCapacity fun _ => 0
  refine (hpasses _ hfresh _ 5).2 (Or.inl ⟨_, rfl, rfl⟩) ?_
  intro node hnode hmatches
  simp only [watch, List.mem_cons, List.not_mem_nil, or_false] at hnode
  rcases hnode with rfl | rfl | rfl | rfl | rfl | rfl <;> cases hmatches
  exact ⟨.schema 6 "true", by simp [watch], rfl, rfl⟩

end BooleanSchemas

end Validation

end TriggerGraph
