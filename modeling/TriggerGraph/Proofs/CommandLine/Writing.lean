import TriggerGraph.Proofs.CommandLine.Decision
import TriggerGraph.Proofs.Evaluation.Persisting

/-!
# What a run writes

A run has many ways to end, and on all of them but one it leaves the files as they are.  Only an
evaluation that came to its end, with a path given for its snapshot, writes a file: the one at
that path, once, with the snapshot and nothing else in it.  A snapshot of an earlier run is not
lost to a later one that fails.

Main results:

- Theorem `Conclusion.run_eq`: a run whose steps all succeed ends in its report.
- Theorem `conclusion_of_run_ne`: all the steps of a run that changes the files succeed.
- Theorem `run_writes_snapshot_alone`: what a run writes, and when.
-/

namespace TriggerGraph

open Json (Tree)

/-- A snapshot is read from its text over lines, in whatever order its entries stand there, if
nesting is no matter. -/
theorem Snapshot.FitsIn.read_prettyText [EntryOrder] {snapshot : Snapshot} {budget : Nat}
    (h : snapshot.FitsIn budget) :
    (Tree.ofText? snapshot.toDocument.prettyText).bind (Snapshot.ofTree? (budget + 2)) =
      some snapshot := by
  rw [Tree.ofText?_prettyText h.allFinite_toDocument, Option.bind_some]
  exact (h.readsBack budget snapshot).2 ⟨rfl, h⟩

namespace CommandLine

variable {words : List String} {arguments : Arguments} {files : Files} {clock : Timestamp}
  {path : String} {outcome : Outcome}

/-! ## Files -/

/-- One file was written: it is at the path and holds the text, and at every other place there
is what was there before. -/
structure Files.Wrote (before after : Files) (path text : String) : Prop where
  write?_eq : before.write? path text = some after
  read?_path : after.read? path = some text
  read?_other : ∀ other, place path ≠ place other → after.read? other = before.read? other

/-- A file is the same by every path that leads to it. -/
theorem Files.read?_congr {other : String} (h : place path = place other) :
    files.read? path = files.read? other := by
  rw [Files.read?, Files.read?, h]

/-- Writing a file writes that one file. -/
theorem Files.wrote_of_write? {after : Files} {text : String}
    (h : files.write? path text = some after) : files.Wrote after path text :=
  ⟨h, read?_write? h, fun _ hother => read?_write?_of_ne h hother⟩

/-! ## Reports on a snapshot -/

section AnyEngine

variable [EntryOrder]

/-- A report on a snapshot that can be written is a success, and the snapshot is written. -/
theorem finish_of_writable (h : files.writable path = true) (front : List String)
    (outcome : Outcome) :
    (finish files (some path) front outcome).exitCode = 0 ∧
      files.write? path outcome.snapshot.toDocument.prettyText =
        some (finish files (some path) front outcome).files := by
  simp [finish, Files.write?, h]

/-- A report on a snapshot that cannot be written is a failure. -/
theorem finish_of_not_writable (h : files.writable path = false) (front : List String)
    (outcome : Outcome) :
    (finish files (some path) front outcome).exitCode = 1 ∧
      (finish files (some path) front outcome).files = files := by
  simp [finish, Files.write?, h, Result.failure]

/-- A report that changes the files had a path for the snapshot. -/
theorem exists_path_of_finish_ne {snapshotOut : Option String} {front : List String}
    (h : (finish files snapshotOut front outcome).files ≠ files) :
    ∃ path, snapshotOut = some path := by
  cases snapshotOut with
  | none => exact absurd rfl h
  | some path => exact ⟨path, rfl⟩

/-! ## Conclusions -/

variable [SchemaEngine]

/-- A run whose steps all succeed and whose snapshot is to be written: the words ask for an
evaluation and give a path for its snapshot, the definition is loaded and has no faults, the
context is loaded, and the evaluation has an outcome. -/
structure Conclusion (words : List String) (files : Files) (clock : Timestamp) where
  arguments : Arguments
  path : String
  graphText : String
  definition : GraphDefinition
  contextText : String
  context : Context
  graph : Graph
  outcome : Outcome
  ofWords_eq : Arguments.ofWords words = .ok arguments
  catalog_eq : arguments.catalog = false
  validateOnly_eq : arguments.validateOnly = false
  snapshotOut_eq : arguments.snapshotOut = some path
  read?_graph : arguments.graphPath.bind files.read? = some graphText
  loads : ∃ stored, GraphDefinition.ofText graphText = .ok stored ∧
    definition = stored.declaring arguments.declaredNodes
  valid : Validation.validate definition.nodes definition.declaredCount = []
  read?_context : arguments.contextPath.bind files.read? = some contextText
  decodes : Context.ofText? contextText = some context
  builds : Graph.build definition.nodes = .ok graph
  evaluates : (Evaluator.fresh.evaluate graph context (arguments.now.getD clock)).1 = .ok outcome

namespace Conclusion

variable (c : Conclusion words files clock)

/-- A run whose steps all succeed ends in its report. -/
theorem run_eq : run words files clock =
    finish files (some c.path) [EvaluationCall.validLine c.definition] c.outcome := by
  rcases Option.bind_eq_some_iff.1 c.read?_graph with ⟨graphPath, hgraphPath, hgraphText⟩
  rcases Option.bind_eq_some_iff.1 c.read?_context with ⟨contextPath, hcontextPath, hcontextText⟩
  rcases c.loads with ⟨stored, hstored, hdefinition⟩
  have hload := loadDefinition_eq_ok_iff.2 ⟨_, stored, hgraphText, hstored, hdefinition⟩
  have hcontext := loadContext_eq_ok_iff.2 ⟨_, hcontextText, c.decodes⟩
  have houtcome := evaluateOnce_eq_ok_iff.2 ⟨c.graph, c.builds, c.evaluates⟩
  simp only [run, c.ofWords_eq, runArguments, c.catalog_eq, hgraphPath, hload, runDefinition,
    c.valid, c.validateOnly_eq, evaluateDefinition, hcontextPath, hcontext, houtcome,
    c.snapshotOut_eq, Bool.false_eq_true, ↓reduceIte, EvaluationCall.validLine]

/-- A snapshot that can be written is, and the run succeeds. -/
theorem wrote_run (h : files.writable c.path = true) :
    (run words files clock).exitCode = 0 ∧
      files.Wrote (run words files clock).files c.path
        c.outcome.snapshot.toDocument.prettyText := by
  rw [c.run_eq]
  rcases finish_of_writable h [EvaluationCall.validLine c.definition] c.outcome with
    ⟨hexit, hwritten⟩
  exact ⟨hexit, Files.wrote_of_write? hwritten⟩

/-- The snapshot of a conclusion is read from the text that it is written as. -/
theorem read_prettyText :
    (Tree.ofText? c.outcome.snapshot.toDocument.prettyText).bind
      (Snapshot.ofTree? (Document.nestingLimit + 1)) = some c.outcome.snapshot := by
  have hfresh : Evaluator.fresh.Reachable := .made SchemaCache.defaultCapacity fun _ => 0
  have hfits := Evaluator.fitsIn_withSnapshot c.builds hfresh.sound c.evaluates
    (Context.fitsIn_of_ofText? c.decodes)
  exact (hfits.snapshot _ rfl).read_prettyText

end Conclusion

/-! ## Changes

Each step is asked what must have gone well if the files are not what they were. -/

/-- If evaluating a definition changes the files, there is a context and an outcome. -/
theorem inputs_of_evaluateDefinition_ne {definition : GraphDefinition} {output : List String}
    (h : (evaluateDefinition arguments files clock definition output).files ≠ files) :
    ∃ contextPath context outcome path, arguments.contextPath = some contextPath ∧
      loadContext files contextPath = .ok context ∧
      evaluateOnce definition.nodes context (arguments.now.getD clock) = .ok outcome ∧
      arguments.snapshotOut = some path := by
  unfold evaluateDefinition at h
  split at h
  case h_1 => exact absurd rfl h
  case h_2 contextPath hpath =>
    split at h
    case h_1 => exact absurd rfl h
    case h_2 context hcontext =>
      split at h
      case h_1 => exact absurd rfl h
      case h_2 outcome houtcome =>
        rcases exists_path_of_finish_ne h with ⟨path, hout⟩
        exact ⟨contextPath, context, outcome, path, hpath, hcontext, houtcome, hout⟩

/-- If the run on a definition changes the files, the definition is valid and evaluated. -/
theorem valid_of_runDefinition_ne {definition : GraphDefinition}
    (h : (runDefinition arguments files clock definition).files ≠ files) :
    Validation.validate definition.nodes definition.declaredCount = [] ∧
      arguments.validateOnly = false ∧
      ∃ output, (evaluateDefinition arguments files clock definition output).files ≠ files := by
  unfold runDefinition at h
  split at h
  case h_1 hvalid =>
    cases honly : arguments.validateOnly with
    | true => simp [honly] at h
    | false =>
        rw [honly] at h
        exact ⟨hvalid, rfl, _, h⟩
  case h_2 => exact absurd rfl h

/-- If the run that arguments ask for changes the files, a definition is loaded and run. -/
theorem definition_of_runArguments_ne
    (h : (runArguments arguments files clock).files ≠ files) :
    arguments.catalog = false ∧ ∃ graphPath definition, arguments.graphPath = some graphPath ∧
      loadDefinition files graphPath arguments.declaredNodes = .ok definition ∧
      (runDefinition arguments files clock definition).files ≠ files := by
  cases hcatalog : arguments.catalog with
  | true => exact absurd (congrArg Result.files (run_catalog hcatalog files clock)) h
  | false =>
      rw [runArguments, hcatalog, if_neg Bool.false_ne_true] at h
      split at h
      case h_1 => exact absurd rfl h
      case h_2 graphPath hpath =>
        split at h
        case h_1 => exact absurd rfl h
        case h_2 definition hload => exact ⟨rfl, graphPath, definition, hpath, hload, h⟩

/-- If a run changes the files, all its steps succeed. -/
theorem conclusion_of_run_ne (h : (run words files clock).files ≠ files) :
    Nonempty (Conclusion words files clock) := by
  cases hwords : Arguments.ofWords words with
  | error refusal => exact absurd (files_of_refused hwords files clock) h
  | ok arguments =>
      have hrun : (runArguments arguments files clock).files ≠ files := by
        rwa [run, hwords] at h
      rcases definition_of_runArguments_ne hrun with
        ⟨hcatalog, graphPath, definition, hgraphPath, hload, hdefinition⟩
      rcases valid_of_runDefinition_ne hdefinition with ⟨hvalid, honly, output, hevaluation⟩
      rcases inputs_of_evaluateDefinition_ne hevaluation with
        ⟨contextPath, context, outcome, path, hcontextPath, hcontext, houtcome, hout⟩
      rcases loadDefinition_eq_ok_iff.1 hload with ⟨graphText, stored, hgraphText, hstored, rfl⟩
      rcases loadContext_eq_ok_iff.1 hcontext with ⟨contextText, hcontextText, hdecodes⟩
      rcases evaluateOnce_eq_ok_iff.1 houtcome with ⟨graph, hbuild, hevaluate⟩
      exact ⟨{
        arguments, path, graphText, contextText, context, graph, outcome
        definition := stored.declaring arguments.declaredNodes
        ofWords_eq := hwords
        catalog_eq := hcatalog
        validateOnly_eq := honly
        snapshotOut_eq := hout
        read?_graph := by rw [hgraphPath, Option.bind_some, hgraphText]
        loads := ⟨stored, hstored, rfl⟩
        valid := hvalid
        read?_context := by rw [hcontextPath, Option.bind_some, hcontextText]
        decodes := hdecodes
        builds := hbuild
        evaluates := hevaluate }⟩

/-- The snapshot of a run that changes the files could be written. -/
theorem writable_of_run_ne (h : (run words files clock).files ≠ files) :
    ∃ c : Conclusion words files clock, files.writable c.path = true := by
  rcases conclusion_of_run_ne h with ⟨c⟩
  refine ⟨c, ?_⟩
  by_contra hwritable
  rw [Bool.not_eq_true] at hwritable
  rw [c.run_eq] at h
  exact h (finish_of_not_writable hwritable _ _).2

end AnyEngine

namespace EvaluationCall

section BooleanSchemas

attribute [local instance] SchemaEngine.booleans EntryOrder.ascending

/-- The call of `watching` whose snapshot is to replace the context that it is made from. -/
def overwriting (declared : Option UInt64) : EvaluationCall :=
  .ofTexts miscounted.toDocument.text seen.text declared 7 (some "./context")

/-- With the count corrected, all steps of the call succeed. -/
theorem exists_conclusion_overwriting :
    ∃ c : Conclusion (overwriting (some 3)).words (overwriting (some 3)).files 0,
      c.path = "./context" := by
  rcases exists_outcome_seen with ⟨outcome, houtcome, -⟩
  exact ⟨{
    arguments := (overwriting (some 3)).arguments
    path := "./context"
    graphText := (overwriting (some 3)).graphText
    definition := miscounted.withNodeCount 3
    contextText := (overwriting (some 3)).contextText
    context := ⟨some (.object [("a", .bool true)]), none⟩
    graph := watchGraph
    outcome := outcome
    ofWords_eq := (overwriting (some 3)).ofWords_eq
    catalog_eq := rfl
    validateOnly_eq := rfl
    snapshotOut_eq := rfl
    read?_graph := (overwriting (some 3)).read?_graph
    loads := ⟨miscounted, ofText_miscounted, rfl⟩
    valid := rfl
    read?_context := (overwriting (some 3)).read?_context
    decodes := ofText?_seen
    builds := rfl
    evaluates := houtcome }, rfl⟩

end BooleanSchemas

end EvaluationCall

end CommandLine

end TriggerGraph
