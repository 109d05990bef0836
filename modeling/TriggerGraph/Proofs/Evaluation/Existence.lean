import TriggerGraph.Proofs.Evaluation.Providing

/-!
# Existence checks and the provider they look at

An existence check does not use what its provider found.  It takes the provider's path and looks
at the source once more, so that it can tell a null from nothing at all.  Both look-ups read the
same source, and in a pass that succeeds it is there: what the provider hands on is what was
found unless that is a null.  So the checks and the provider never contradict each other.

Main results:

- Theorem `Operator.apply_of_lookup`: what a check answers depends on what is found alone.
- Theorem `Operator.agree_answerOf`: the answers agree with what the path provides.
- Theorem `Evaluator.existence_checks_agree_with_provider`: so they do in every pass.
-/

namespace TriggerGraph

/-! ## Answers -/

namespace Operator

variable {operator : Operator} {operands : Operands} {found : Option Document}
  {source : Document} {path : String}

/-- What an existence check answers about a document that was found, or about none. -/
def answerOf (found : Option Document) : Operator → Bool
  | pathExists => found.isSome
  | pathMissing => found.isNone
  | pathNotNull => found.any fun d => !d.isNull
  | _ => false

/-- Answers of the existence checks that agree with each other and with the result of a provider
that reads the source at the path. -/
structure Agree (answer : Operator → Bool) (source : Document) (path : String)
    (result : Option Value) : Prop where
  exists_iff : answer .pathExists = true ↔ ∃ d, source.LeadsTo (Path.relativeToSource path) d
  notNull_iff : answer .pathNotNull = true ↔ result.isSome = true
  missing_iff : answer .pathMissing = true ↔ answer .pathExists = false
  null_iff : answer .pathExists = true ∧ result = none ↔
    source.LeadsTo (Path.relativeToSource path) .null
  exists_of_notNull : answer .pathNotNull = true → answer .pathExists = true
  not_missing_of_result : result.isSome = true → answer .pathMissing = false

/-- A check looks at the source, at the path of the provider wired first. -/
theorem lookup_eq_ok (hpath : operands.providerPath? = some path)
    (hsource : operands.source = some source) :
    lookup operands = .ok (source.resolve? (Path.relativeToSource path)) := by
  simp only [lookup, hpath, hsource]

/-- The answers agree with what the path provides. -/
theorem agree_answerOf (source : Document) (path : String) :
    Agree (answerOf (source.resolve? (Path.relativeToSource path))) source path
      (source.extract? (Path.relativeToSource path)) := by
  have hleads : ∀ d, source.LeadsTo (Path.relativeToSource path) d ↔
      source.resolve? (Path.relativeToSource path) = some d :=
    fun d => Document.resolve?_eq_some_iff_leadsTo.symm
  unfold Document.extract?
  cases hfound : source.resolve? (Path.relativeToSource path) with
  | none => constructor <;> simp [answerOf, hleads, hfound]
  | some d =>
      by_cases hnull : d = .null
      · subst hnull
        have hleaf : Value.ofLeaf? .null = none := (Value.ofLeaf?_eq_none_iff .null).2 rfl
        have hisNull : Document.null.isNull = true := rfl
        constructor <;> simp [answerOf, hleads, hfound, hleaf, hisNull]
      · have hleaf : Value.ofLeaf? d = some (.ofDocument d) :=
          Value.ofLeaf?_eq_some_iff.2 ⟨hnull, rfl⟩
        have hisNull : d.isNull = false := by cases d <;> simp_all [Document.isNull]
        constructor <;> simp [answerOf, hleads, hfound, hleaf, hisNull, hnull]

variable [SchemaEngine]

/-- What a check answers depends on what is found alone. -/
theorem apply_of_lookup (hlookup : lookup operands = .ok found)
    (h : operator.checksExistence = true) :
    operator.apply operands = .ok (.bool (answerOf found operator)) := by
  cases operator with
  | pathExists | pathMissing | pathNotNull =>
      rw [apply, hlookup]
      rfl
  | _ => cases h

end Operator

namespace Evaluator

open TriggerGraph.Graph

section AnyEngine

variable [SchemaEngine] {nodes : List Node} {graph : Graph} {evaluator : Evaluator}
  {context : Context} {now : Timestamp} {outcome : Outcome} {provider : Node} {path : String}

/-- A provider takes part in a successful pass only if the source is an object. -/
theorem exists_source_of_provider (hbuild : build nodes = .ok graph)
    (hsound : evaluator.schemas.Sound)
    (h : (evaluator.evaluate graph context now).1 = .ok outcome) (hprovider : provider ∈ nodes)
    (hpath : provider.kind = .provider path) :
    ∃ source, context.source = some source ∧ source.isObject = true := by
  have hcycle := hasCycle_of_evaluate h
  have hreads := wellFounded_reads hbuild hcycle
  have hresult := reading_of_evaluate hbuild hcycle hreads hsound h provider.id
  have hfind := (node?_eq_some_iff hbuild).2 ⟨hprovider, rfl⟩
  have hreadsSource : provider.isProvider = true := by
    rw [Node.isProvider, Node.providerPath?_eq_some_iff.2 hpath]
    rfl
  rcases exists_values_of_reading_eq_ok hfind hresult with ⟨values, -, hmeaning⟩
  rcases Node.meaning_of_isProvider hreadsSource with
    ⟨source, hsource, hobject, -⟩ | ⟨-, herror⟩ | ⟨source, -, -, herror⟩
  · exact ⟨source, hsource, hobject⟩
  · cases herror.symm.trans hmeaning
  · cases herror.symm.trans hmeaning

omit [SchemaEngine] in
/-- The first operand of a node that is wired first to a provider is that provider. -/
theorem providerPath?_operandsOf (hbuild : build nodes = .ok graph) (hprovider : provider ∈ nodes)
    (hpath : provider.kind = .provider path) {node : Node}
    (hfirst : node.inputs[0]? = some provider.id) :
    (outcome.operandsOf graph context node).providerPath? = some path := by
  have hfind := (node?_eq_some_iff hbuild).2 ⟨hprovider, rfl⟩
  have hpath? := Node.providerPath?_eq_some_iff.2 hpath
  rcases hinputs : node.inputs with _ | ⟨first, rest⟩
  · rw [hinputs] at hfirst
    cases hfirst
  · rw [hinputs, List.getElem?_cons_zero, Option.some.injEq] at hfirst
    simp [Outcome.operandsOf, inputsWith, hinputs, hfirst, hfind, Operands.providerPath?, hpath?]

/-- In every successful pass the existence checks that are wired first to a provider agree with
its result.  There is a source that the provider read, and for each check an answer which it
gives at every node wired first to the provider, so that it is the result of such a node with
that check: the answer on what is not null is whether the provider has a result, the answers on
what exists and what is missing are opposite, and something exists without a result exactly if
the path leads to a null.  So nothing that is not null is said not to exist, and nothing that
has a result to be missing. -/
theorem existence_checks_agree_with_provider (hbuild : build nodes = .ok graph)
    (hreachable : evaluator.Reachable)
    (h : (evaluator.evaluate graph context now).1 = .ok outcome) (hprovider : provider ∈ nodes)
    (hpath : provider.kind = .provider path) :
    ∃ source answer, context.source = some source ∧
      (∀ node ∈ nodes, node.inputs[0]? = some provider.id →
        ∀ operator : Operator, operator.checksExistence = true →
          operator.apply (outcome.operandsOf graph context node) = .ok (.bool (answer operator)) ∧
            (node.kind = .logic operator →
              outcome.result? node.id = some (.bool (answer operator)))) ∧
      Operator.Agree answer source path (outcome.result? provider.id) := by
  have hsound := hreachable.sound
  rcases exists_source_of_provider hbuild hsound h hprovider hpath with ⟨source, hsource, -⟩
  have hresult := result?_eq_extract? hbuild hsound h hprovider hpath hsource
  refine ⟨source, Operator.answerOf (source.resolve? (Path.relativeToSource path)), hsource, ?_,
    hresult ▸ Operator.agree_answerOf source path⟩
  intro node hnode hfirst operator hchecks
  have hwired : (outcome.operandsOf graph context node).providerPath? = some path :=
    providerPath?_operandsOf hbuild hprovider hpath hfirst
  have hlookup := Operator.lookup_eq_ok hwired hsource
  have happly := Operator.apply_of_lookup hlookup hchecks
  refine ⟨happly, fun hkind => ?_⟩
  rcases result?_of_logic hbuild hsound h hnode hkind with ⟨result, hcomputed, hnodeResult⟩
  rw [happly] at hcomputed
  rw [hnodeResult, ← Except.ok.inj hcomputed]

end AnyEngine

/-- An entry of a directory with a telephone number that was left open. -/
def openEntry : Document := .object [("phone", .null)]

/-- The telephone number with all three checks of it. -/
def telephone : List Node :=
  [.provider 1 "source.phone", .logic 2 .pathExists [1], .logic 3 .pathMissing [1],
    .logic 4 .pathNotNull [1], .final 5 (some 2)]

/-- The telephone with inputs resolved and in order. -/
def telephoneGraph : Graph :=
  ⟨telephone, [(5, 4), (4, 3), (3, 2), (2, 1), (1, 0)],
    [[], [0], [0], [0], [1]], ⟨[0, 1, 2, 3, 4], false, []⟩⟩

section BooleanSchemas

attribute [local instance] SchemaEngine.booleans

/-- A number that was left open exists and is null. -/
theorem checks_of_open_entry :
    ∃ outcome, (fresh.evaluate telephoneGraph (.ofSource openEntry) 5).1 = .ok outcome ∧
      outcome.result? 1 = none ∧ outcome.result? 2 = some (.bool true) ∧
      outcome.result? 3 = some (.bool false) ∧ outcome.result? 4 = some (.bool false) := by
  have hbuild : build telephone = .ok telephoneGraph := by rfl
  have hfresh : fresh.Reachable := .made SchemaCache.defaultCapacity fun _ => 0
  have hverdict : fresh.verdict telephoneGraph (.ofSource openEntry) 5 = .ok true := by rfl
  rcases exists_outcome_of_verdict hverdict with ⟨outcome, houtcome, -⟩
  rcases existence_checks_agree_with_provider hbuild hfresh houtcome
    (show Node.provider 1 "source.phone" ∈ telephone from List.mem_cons_self) rfl with
    ⟨source, answer, hsource, hnodes, hagree⟩
  have hnull : source.LeadsTo (Path.relativeToSource "source.phone") .null := by
    cases hsource
    exact Document.resolve?_eq_some_iff_leadsTo.1 (by rfl)
  rcases hagree.null_iff.2 hnull with ⟨hexists, hnone⟩
  have hmissing : answer .pathMissing = false := by
    rw [Bool.eq_false_iff, Ne, hagree.missing_iff, hexists]
    exact Bool.noConfusion
  have hnotNull : answer .pathNotNull = false := by
    rw [Bool.eq_false_iff, Ne, hagree.notNull_iff, hnone]
    exact Bool.noConfusion
  refine ⟨outcome, houtcome, hnone, ?_, ?_, ?_⟩
  · have hnode := hnodes (.logic 2 .pathExists [1]) (by simp [telephone]) rfl .pathExists rfl
    rw [← hexists]
    exact hnode.2 rfl
  · have hnode := hnodes (.logic 3 .pathMissing [1]) (by simp [telephone]) rfl .pathMissing rfl
    rw [← hmissing]
    exact hnode.2 rfl
  · have hnode := hnodes (.logic 4 .pathNotNull [1]) (by simp [telephone]) rfl .pathNotNull rfl
    rw [← hnotNull]
    exact hnode.2 rfl

end BooleanSchemas

end Evaluator

end TriggerGraph
