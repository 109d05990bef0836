import TriggerGraph.Proofs.Document.Path
import TriggerGraph.Proofs.Evaluation.Declared
import TriggerGraph.Proofs.Evaluation.Merging
import TriggerGraph.Proofs.Evaluation.Safety
import TriggerGraph.Proofs.Operator.Operands
import TriggerGraph.Proofs.Value.Conversion

/-!
# What providers hand on

A provider takes the document at its path out of the source and hands it on as a value.  The
path means what it spells, and nothing is lost in the conversion: a schema that is applied to
the value checks the document itself.

Main results:

- Theorem `Evaluator.result?_of_logic`: a logic node results in what its operator computes
  from the results of its inputs.
- Theorem `Evaluator.checks_document_of_provider`: what a schema node behind a provider has
  checked.
- Theorem `provider_paths_address_what_they_spell`: what accepted paths are and address.
- Theorem `conversions_lose_nothing`: documents as values and back.
-/

namespace TriggerGraph

/-! ## Schema nodes -/

/-- By the results of a pass, the node has checked the document against the schema that its
second input holds. -/
def Outcome.Checks [SchemaEngine] (outcome : Outcome) (node : Node) (d : Document) : Prop :=
  ∃ second text schema, node.inputs[1]? = some second ∧
    outcome.result? second = some (.string text) ∧ Schema.compile text = .ok schema ∧
      outcome.result? node.id = some (.bool (SchemaEngine.accepts schema d))

/-- The operands of a node by the results of a pass. -/
def Outcome.operandsOf (outcome : Outcome) (graph : Graph) (context : Context) (node : Node) :
    Operands :=
  ⟨node.id, graph.inputsWith node (node.inputs.map outcome.result?), context.source⟩

namespace Graph

/-- The operands of a wired node are the values of its inputs. -/
theorem map_snd_inputsWith {graph : Graph} {nodes : List Node} (hbuild : build nodes = .ok graph)
    {node : Node} (hnode : node ∈ nodes) {values : List (Option Value)}
    (h : values.length = node.inputs.length) :
    (graph.inputsWith node values).map Prod.snd = values := by
  have hlength := Validation.length_inputNodes hbuild hnode
  exact List.map_snd_zip (by omega)

end Graph

namespace Operator

variable [SchemaEngine] {operands : Operands} {value result : Value}

/-- With a value to check, the schema operator succeeds only if it has a text that compiles,
and then with what the schema says of the value's document. -/
theorem exists_schema_of_applySchema (hvalue : operands.value? 0 = some value)
    (h : applySchema operands = .ok result) :
    ∃ text schema, operands.value? 1 = some (.string text) ∧ Schema.compile text = .ok schema ∧
      result = .bool (SchemaEngine.accepts schema value.toDocument) := by
  unfold applySchema schemaQuery at h
  rw [hvalue] at h
  dsimp only at h
  split at h
  · cases h
  · rename_i hquery
    split at hquery <;> cases hquery
  · rename_i checked text hquery
    split at hquery
    · rename_i found hsecond
      cases hquery
      cases hcompile : Schema.compile text with
      | ok schema =>
          rw [hcompile] at h
          cases h
          exact ⟨text, schema, hsecond, hcompile, rfl⟩
      | error reason =>
          rw [hcompile] at h
          cases h
    · cases hquery

end Operator

namespace Evaluator

open TriggerGraph.Graph

variable [SchemaEngine] {nodes : List Node} {graph : Graph} {evaluator : Evaluator}
  {context : Context} {now : Timestamp} {outcome : Outcome}

section Succeeded

variable (hbuild : build nodes = .ok graph) (hsound : evaluator.schemas.Sound)
  (h : (evaluator.evaluate graph context now).1 = .ok outcome) {node : Node}
  (hnode : node ∈ nodes)

include hbuild hsound h hnode

/-- A logic node results in what its operator computes from the results of its inputs. -/
theorem result?_of_logic {operator : Operator} (hkind : node.kind = .logic operator) :
    ∃ result, operator.apply (outcome.operandsOf graph context node) = .ok result ∧
      outcome.result? node.id = some result := by
  have hcycle := hasCycle_of_evaluate h
  have hreads := wellFounded_reads hbuild hcycle
  have hresult := reading_of_evaluate hbuild hcycle hreads hsound h
  have hfind := (node?_eq_some_iff hbuild).2 ⟨hnode, rfl⟩
  rcases exists_values_of_reading_eq_ok hfind (hresult node.id) with ⟨values, hvalues, hmeaning⟩
  have hmap : values = node.inputs.map outcome.result? := by
    rw [← List.forall₂_eq_eq_eq, List.forall₂_map_right_iff]
    refine List.Forall₂.flip (hvalues.imp fun input value hvalue => ?_)
    exact Except.ok.inj (hvalue.symm.trans (hresult input))
  have happly : (operator.apply (outcome.operandsOf graph context node)).map some =
      .ok (outcome.result? node.id) := by
    rw [Node.meaning_of_logic hkind, hmap] at hmeaning
    exact hmeaning
  cases hcomputed : operator.apply (outcome.operandsOf graph context node) with
  | error error =>
      rw [hcomputed] at happly
      cases happly
  | ok result =>
      rw [hcomputed] at happly
      exact ⟨result, rfl, (Except.ok.inj happly).symm⟩

omit [SchemaEngine] hsound h in
/-- The operands of a node are the results of its inputs. -/
theorem values_operandsOf :
    (outcome.operandsOf graph context node).values = node.inputs.map outcome.result? :=
  map_snd_inputsWith hbuild hnode (List.length_map _)

/-- A schema node with a value to check has checked the value's document. -/
theorem checks_of_matchesSchema (hkind : node.kind = .logic .matchesSchema) {first : NodeId}
    (hfirst : node.inputs[0]? = some first) {value : Value}
    (hvalue : outcome.result? first = some value) : outcome.Checks node value.toDocument := by
  rcases result?_of_logic hbuild hsound h hnode hkind with
    ⟨result, happly, hresult⟩
  have hvalues : (outcome.operandsOf graph context node).values = node.inputs.map outcome.result? :=
    values_operandsOf hbuild hnode
  have hoperand : (outcome.operandsOf graph context node).value? 0 = some value := by
    rw [Operands.value?_eq, hvalues, List.getElem?_map, hfirst, Option.map_some, hvalue]
    rfl
  rcases Operator.exists_schema_of_applySchema hoperand happly with
    ⟨text, schema, htext, hcompile, rfl⟩
  rw [Operands.value?_eq, hvalues, List.getElem?_map] at htext
  cases hsecond : node.inputs[1]? with
  | none =>
      rw [hsecond] at htext
      cases htext
  | some second =>
      rw [hsecond] at htext
      exact ⟨second, text, schema, hsecond, htext, hcompile, hresult⟩

/-- A provider results in what the source holds at its path. -/
theorem result?_eq_extract? {path : String} (hkind : node.kind = .provider path)
    {source : Document} (hsource : context.source = some source) :
    outcome.result? node.id = source.extract? (Path.relativeToSource path) := by
  have hfind := (node?_eq_some_iff hbuild).2 ⟨hnode, rfl⟩
  rw [result?_of_provider hbuild (hasCycle_of_evaluate h) hsound h hfind
    (Node.providerPath?_eq_some_iff.2 hkind), Context.live, hsource, Option.bind_some]

/-- A schema node that is fed by a provider with a value has checked the very document at the
provider's path. -/
theorem checks_document_of_provider (hkind : node.kind = .logic .matchesSchema) {provider : Node}
    (hprovider : provider ∈ nodes) (hfirst : node.inputs[0]? = some provider.id) {path : String}
    (hpath : provider.kind = .provider path) {source : Document}
    (hsource : context.source = some source) (hfinite : source.AllFinite) {value : Value}
    (hvalue : outcome.result? provider.id = some value) :
    ∃ d, source.resolve? (Path.relativeToSource path) = some d ∧ outcome.Checks node d := by
  have hchecks := checks_of_matchesSchema hbuild hsound h hnode hkind hfirst hvalue
  rw [result?_eq_extract? hbuild hsound h hprovider hpath hsource] at hvalue
  rcases Option.bind_eq_some_iff.1 hvalue with ⟨d, hfound, hleaf⟩
  rcases Value.ofLeaf?_eq_some_iff.1 hleaf with ⟨-, rfl⟩
  rw [(hfinite.resolve? hfound).toDocument_ofDocument] at hchecks
  exact ⟨d, hfound, hchecks⟩

end Succeeded

end Evaluator

/-! ## What providers find -/

section Providers

variable {source : Document} {path : String} {below : List String} {node : Node}

/-- A provider with an object as source does not fail. -/
theorem Pass.calculate_provider [SchemaEngine] {pass : Pass}
    (hsource : pass.context.source = some source)
    (hobject : source.isObject = true) (hkind : node.kind = .provider path)
    (wired : List (Node × Option Value)) (cache : SchemaCache) :
    pass.calculate node wired cache =
      (.ok (.ofValue? (source.extract? (Path.relativeToSource path))), cache) := by
  simp only [calculate, hkind, provided, sourceFor, hsource, hobject, ↓reduceIte, Except.map]

theorem Node.configurationFault?_of_provider (hkind : node.kind = .provider path) :
    node.configurationFault? = none ↔ ∃ below, Path.IsBelow path below := by
  rw [← Path.checkProvider_eq_ok_iff_isBelow]
  unfold configurationFault?
  rw [hkind]
  dsimp only
  cases Path.checkProvider path <;> simp

/-- A provider path is accepted exactly if it is the source root and segments below it, at least
one and none empty.  Then it is resolved to what its segments lead to, a member of an object or
an item of an array at each step; only a slash or a dollar sign alone stands for the source.  And
a provider with this path never fails on an object as source: its result is the value of the
document found, or none if nothing or a null is found. -/
theorem provider_paths_address_what_they_spell [SchemaEngine] (path : String) :
    (∀ node : Node, node.kind = .provider path →
        (node.configurationFault? = none ↔ ∃ below, Path.IsBelow path below)) ∧
      ∀ below, Path.IsBelow path below → ∀ source : Document, source.isObject = true →
        (∀ d, source.resolve? (Path.relativeToSource path) = some d ↔
            source.Addresses below d) ∧
          ∀ node : Node, node.kind = .provider path →
            (∀ pass : Pass, pass.context.source = some source → ∀ wired cache, ∃ result,
              pass.calculate node wired cache = (.ok (.ofValue? result), cache) ∧
                source.Provides below result) ∧
            ∀ nodes graph, Graph.build nodes = .ok graph → node ∈ nodes →
              ∀ evaluator : Evaluator, evaluator.Reachable →
                ∀ (context : Context) (now : Timestamp) (outcome : Outcome),
                  context.source = some source →
                    (evaluator.evaluate graph context now).1 = .ok outcome →
                      source.Provides below (outcome.result? node.id) := by
  refine ⟨fun node hkind => Node.configurationFault?_of_provider hkind, ?_⟩
  intro below hbelow source hobject
  refine ⟨fun d => Document.resolve?_eq_some_iff_addresses hbelow, fun node hkind => ⟨?_, ?_⟩⟩
  · intro pass hsource wired cache
    exact ⟨_, Pass.calculate_provider hsource hobject hkind wired cache,
      Document.provides_extract? hbelow⟩
  · intro nodes graph hbuild hnode evaluator hreachable context now outcome hsource h
    rw [Evaluator.result?_eq_extract? hbuild hreachable.sound h hnode hkind hsource]
    exact Document.provides_extract? hbelow

/-- A list of guests in which the first place is free. -/
def guestList : Document :=
  .object [("guests", .array [.null, .string "Ann"])]

/-- A provider of the second guest, the place told with a plus sign. -/
def usher : List Node :=
  [.provider 1 "source.guests.+1", .final 2 none]

/-- The usher with inputs resolved and in order. -/
def usherGraph : Graph := ⟨usher, [(2, 1), (1, 0)], [[], []], ⟨[0, 1], false, []⟩⟩

section BooleanSchemas

attribute [local instance] SchemaEngine.booleans

/-- The usher is accepted and finds the second guest. -/
theorem usher_finds_second_guest :
    (Node.provider 1 "source.guests.+1").configurationFault? = none ∧
      guestList.Addresses ["guests", "+1"] (.string "Ann") ∧
      ∃ outcome, (Evaluator.fresh.evaluate usherGraph (.ofSource guestList) 5).1 = .ok outcome ∧
        guestList.Provides ["guests", "+1"] (outcome.result? 1) := by
  have hbelow : Path.IsBelow "source.guests.+1" ["guests", "+1"] :=
    ⟨by decide, by decide, by decide, by decide⟩
  have hbuild : Graph.build usher = .ok usherGraph := by rfl
  have hfresh : Evaluator.fresh.Reachable := .made SchemaCache.defaultCapacity fun _ => 0
  have hverdict : Evaluator.fresh.verdict usherGraph (.ofSource guestList) 5 = .ok true := by rfl
  rcases Evaluator.exists_outcome_of_verdict hverdict with ⟨outcome, houtcome, -⟩
  rcases provider_paths_address_what_they_spell "source.guests.+1" with ⟨haccepted, hfinds⟩
  rcases hfinds _ hbelow guestList rfl with ⟨haddresses, hprovides⟩
  refine ⟨(haccepted _ rfl).2 ⟨_, hbelow⟩, (haddresses _).1 (by rfl), outcome, houtcome, ?_⟩
  exact (hprovides (.provider 1 "source.guests.+1") rfl).2 usher usherGraph hbuild
    List.mem_cons_self Evaluator.fresh hfresh _ 5 outcome rfl houtcome

end BooleanSchemas

end Providers

/-! ## What schema nodes check -/

/-- Nothing is lost between documents and values.  A document of finite numbers is the document
of its value, which has the same numbers at every depth: a number is held as the number it is,
and what is held, in a word of either kind or in floating point, is held the same again.  A value
is read back from its document unless it has an infinity.  So a schema node that is fed by a
provider with a value checks the very document at the provider's path. -/
theorem conversions_lose_nothing [SchemaEngine] :
    (∀ d : Document, d.AllFinite → (Value.ofDocument d).toDocument = d) ∧
      (∀ d : Document, (Value.ofDocument d).numbers = d.numbers) ∧
      (∀ n : Number, n.held.number = n) ∧
      (∀ n : MachineNumber, n.number.held = n) ∧
      (∀ v : Value, Value.ofDocument v.toDocument = v ↔ v.FiniteOutside) ∧
      ∀ nodes graph, Graph.build nodes = .ok graph →
        ∀ evaluator : Evaluator, evaluator.Reachable →
          ∀ (context : Context) (now : Timestamp) (outcome : Outcome) (source : Document),
            context.source = some source → source.AllFinite →
              (evaluator.evaluate graph context now).1 = .ok outcome →
                ∀ node ∈ nodes, ∀ provider ∈ nodes, ∀ path value,
                  node.kind = .logic .matchesSchema → node.inputs[0]? = some provider.id →
                    provider.kind = .provider path →
                      outcome.result? provider.id = some value →
                        ∃ d, source.resolve? (Path.relativeToSource path) = some d ∧
                          outcome.Checks node d := by
  refine ⟨fun d hfinite => hfinite.toDocument_ofDocument, Value.numbers_ofDocument,
    Number.number_held, MachineNumber.held_number, Value.ofDocument_toDocument_iff, ?_⟩
  intro nodes graph hbuild evaluator hreachable context now outcome source hsource hfinite h
    node hnode provider hprovider path value hkind hfirst hpath hvalue
  exact Evaluator.checks_document_of_provider hbuild hreachable.sound h hnode hkind hprovider
    hfirst hpath hsource hfinite hvalue

/-- The greatest unsigned word, the least signed word and a null. -/
def sizes : Document :=
  .array [.number (.int (.ofUInt64 0xffffffffffffffff)),
    .number (.int (.ofInt64 (-0x8000000000000000))), .null]

/-- Sizes that are checked against a schema that everything meets. -/
def sizing : List Node :=
  [.provider 1 "source.sizes", .schema 2 "true", .logic 3 .matchesSchema [1, 2],
    .final 4 (some 3)]

/-- The sizing with inputs resolved and in order. -/
def sizingGraph : Graph :=
  ⟨sizing, [(4, 3), (3, 2), (2, 1), (1, 0)], [[], [], [0, 1], [2]], ⟨[0, 1, 2, 3], false, []⟩⟩

section BooleanSchemas

attribute [local instance] SchemaEngine.booleans

/-- The sizes are checked as they are. -/
theorem sizes_are_checked_unchanged :
    (Value.ofDocument sizes).toDocument = sizes ∧
      ∃ outcome, (Evaluator.fresh.evaluate sizingGraph
          (.ofSource (.object [("sizes", sizes)])) 5).1 = .ok outcome ∧
        ∃ d, Document.resolve? (.object [("sizes", sizes)]) "sizes" = some d ∧
          outcome.Checks (.logic 3 .matchesSchema [1, 2]) d := by
  have hfinite : sizes.AllFinite := ⟨rfl, rfl, trivial, trivial⟩
  have hbuild : Graph.build sizing = .ok sizingGraph := by rfl
  have hfresh : Evaluator.fresh.Reachable := .made SchemaCache.defaultCapacity fun _ => 0
  have hverdict : Evaluator.fresh.verdict sizingGraph
      (.ofSource (.object [("sizes", sizes)])) 5 = .ok true := by rfl
  rcases Evaluator.exists_outcome_of_verdict hverdict with ⟨outcome, houtcome, -⟩
  refine ⟨conversions_lose_nothing.1 sizes hfinite, outcome, houtcome, ?_⟩
  have hvalue : outcome.result? 1 = some (Value.ofDocument sizes) :=
    Evaluator.result?_eq_extract? hbuild hfresh.sound houtcome
      (show Node.provider 1 "source.sizes" ∈ sizing from List.mem_cons_self) rfl rfl
  exact conversions_lose_nothing.2.2.2.2.2 sizing sizingGraph hbuild Evaluator.fresh hfresh _ 5
    outcome (.object [("sizes", sizes)]) rfl ⟨hfinite, trivial⟩ houtcome
    (.logic 3 .matchesSchema [1, 2]) (by simp [sizing]) (.provider 1 "source.sizes")
    List.mem_cons_self "source.sizes" _ rfl rfl rfl hvalue

end BooleanSchemas

end TriggerGraph
