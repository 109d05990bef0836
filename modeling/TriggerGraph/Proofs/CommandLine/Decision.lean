import TriggerGraph.CommandLine.Run
import TriggerGraph.Proofs.CommandLine.Spelling
import TriggerGraph.Proofs.Document.Text
import TriggerGraph.Proofs.Evaluation.Sessions
import TriggerGraph.Proofs.Graph.Faults
import TriggerGraph.Proofs.Node.Path
import TriggerGraph.Proofs.Number.Decimals
import TriggerGraph.Proofs.Stored.Node

/-!
# The command line decides what the library decides

A call for an evaluation loads a definition, validates it, builds its graph and evaluates it
once, each step with an exit of its own.  Seen from outside there are three ways to end, and
they are those of the library: the definition compiles and its evaluation has an outcome,
the definition is loaded but invalid, or one of the steps fails.  Building never does, since
it comes after validation.  What was decided can be read off the end of the printed text,
whatever the names of graphs and files contain.

Main results:

- Theorem `Prints.inj`: a text tells of one verdict and one number of entries.
- Theorems `exit_of_decides`, `exit_of_rejects` and `exit_cases`: the three ways to end.
- Theorem `run_decides_as_library`: exit code and report are those of the library's answer.
-/

namespace TriggerGraph

open Json (Tree)

/-- The definition with the number of nodes declared from outside, if there is one. -/
def GraphDefinition.declaring (definition : GraphDefinition) : Option UInt64 → GraphDefinition
  | some count => definition.withNodeCount count
  | none => definition

namespace CommandLine

/-! ## Steps of a run -/

variable {files : Files} {path : String}

/-- A definition is loaded if there is a text at its path that is one. -/
theorem loadDefinition_eq_ok_iff {declared : Option UInt64} {definition : GraphDefinition} :
    loadDefinition files path declared = .ok definition ↔
      ∃ text stored, files.read? path = some text ∧ GraphDefinition.ofText text = .ok stored ∧
        definition = stored.declaring declared := by
  unfold loadDefinition
  cases hread : files.read? path with
  | none => simp
  | some text =>
      cases hstored : GraphDefinition.ofText text with
      | error error => simp [hstored]
      | ok stored =>
          cases declared <;> simp [hstored, GraphDefinition.declaring, eq_comm]

/-- A context is loaded if there is a text at its path that is one. -/
theorem loadContext_eq_ok_iff {context : Context} :
    loadContext files path = .ok context ↔
      ∃ text, files.read? path = some text ∧ Context.ofText? text = some context := by
  unfold loadContext
  cases hread : files.read? path with
  | none => simp
  | some text => cases hcontext : Context.ofText? text <;> simp [hcontext]

/-- A node list is evaluated if it is a graph and the pass over it succeeds. -/
theorem evaluateOnce_eq_ok_iff [SchemaEngine] {nodes : List Node} {context : Context}
    {now : Timestamp} {outcome : Outcome} :
    evaluateOnce nodes context now = .ok outcome ↔
      ∃ graph, Graph.build nodes = .ok graph ∧
        (Evaluator.fresh.evaluate graph context now).1 = .ok outcome := by
  unfold evaluateOnce
  cases hbuild : Graph.build nodes with
  | error error => simp
  | ok graph => cases houtcome : (Evaluator.fresh.evaluate graph context now).1 <;> simp [houtcome]

/-! ## Reports -/

theorem toList_lines (texts : List String) :
    (Result.lines texts).toList = texts.flatMap fun text => text.toList ++ ['\n'] := by
  simp [Result.lines, String.toList_join, List.flatMap_def, Function.comp_def]

/-- Lines printed after others follow them in the output. -/
theorem lines_append (texts more : List String) :
    Result.lines (texts ++ more) = Result.lines texts ++ Result.lines more := by
  rw [← String.toList_inj, String.toList_append, toList_lines, toList_lines, toList_lines,
    List.flatMap_append]

/-- The last line of a text can be told from what stands before it. -/
theorem append_line_inj {front other line last : List Char} (hline : '\n' ∉ line)
    (hlast : '\n' ∉ last) (h : front ++ '\n' :: line = other ++ '\n' :: last) :
    front = other ∧ line = last := by
  have hlines : line.reverse = last.reverse := by
    have hreversed := congrArg (fun cs => Path.pieces '\n' cs.reverse) h
    simp only [List.reverse_append, List.reverse_cons, List.append_assoc,
      List.singleton_append] at hreversed
    rw [Path.pieces_append (by simpa using hline), Path.pieces_append (by simpa using hlast)]
      at hreversed
    exact (List.cons.inj hreversed).1
  have hsame : line = last := List.reverse_inj.1 hlines
  subst hsame
  exact ⟨List.append_cancel_right h, rfl⟩

/-- The line on the verdict. -/
def verdictLine (verdict : Bool) : String :=
  "Verdict: " ++ (if verdict then "true" else "false")

theorem newline_notMem_verdictLine (verdict : Bool) : '\n' ∉ (verdictLine verdict).toList := by
  cases verdict <;> decide

/-- The line tells the verdict. -/
theorem verdictLine_inj {verdict other : Bool} (h : verdictLine verdict = verdictLine other) :
    verdict = other := by
  have htext : (if verdict then "true" else "false") = if other then "true" else "false" :=
    (String.append_right_inj "Verdict: ").1 h
  cases verdict <;> cases other <;> simp at htext ⊢

/-- The line on the number of entries in the snapshot. -/
def entriesLine (entries : Nat) : String := "Snapshot entries: " ++ toString entries

theorem toList_entriesLine (entries : Nat) :
    (entriesLine entries).toList = "Snapshot entries: ".toList ++ Nat.toDigits 10 entries := by
  unfold entriesLine
  rw [String.toList_append, List.append_right_inj, Nat.toString_eq_repr]
  exact Nat.toList_repr

theorem newline_notMem_entriesLine (entries : Nat) : '\n' ∉ (entriesLine entries).toList := by
  rw [toList_entriesLine, List.mem_append, not_or]
  refine ⟨by decide, fun hdigit => ?_⟩
  have hnot : Digits.isDigit '\n' = false := by decide
  rw [Digits.isDigit_of_mem_toDigits hdigit] at hnot
  cases hnot

/-- The line tells the number of entries. -/
theorem entriesLine_inj {entries count : Nat} (h : entriesLine entries = entriesLine count) :
    entries = count := by
  have hchars := congrArg String.toList h
  rw [toList_entriesLine, toList_entriesLine] at hchars
  have hvalues := congrArg Digits.value (List.append_cancel_left hchars)
  rwa [Digits.value_toDigits, Digits.value_toDigits] at hvalues

/-- The lines on what was decided, and on the snapshot file if one was asked for. -/
def decisionLines (snapshotOut : Option String) (verdict : Bool) (entries : Nat) : List String :=
  ["", verdictLine verdict, entriesLine entries]
    ++ snapshotOut.toList.map fun path => "Snapshot written to '" ++ path ++ "'"

/-- The text ends with the lines on what was decided. -/
def Prints (snapshotOut : Option String) (output : String) (verdict : Bool) (entries : Nat) :
    Prop :=
  ∃ front, output = front ++ Result.lines (decisionLines snapshotOut verdict entries)

/-- A text tells of one verdict and one number of entries. -/
theorem Prints.inj {snapshotOut : Option String} {output : String} {verdict other : Bool}
    {entries count : Nat} (h : Prints snapshotOut output verdict entries)
    (hother : Prints snapshotOut output other count) : verdict = other ∧ entries = count := by
  rcases h with ⟨front, rfl⟩
  rcases hother with ⟨start, hsame⟩
  have hchars := congrArg String.toList hsame
  simp only [String.toList_append, toList_lines, decisionLines, List.flatMap_append,
    ← List.append_assoc] at hchars
  have hlines : (front.toList ++ '\n' :: (verdictLine verdict).toList) ++
        '\n' :: (entriesLine entries).toList =
      (start.toList ++ '\n' :: (verdictLine other).toList) ++
        '\n' :: (entriesLine count).toList := by
    refine (List.append_left_inj ['\n']).1 ?_
    simpa using List.append_cancel_right hchars
  rcases append_line_inj (newline_notMem_entriesLine entries) (newline_notMem_entriesLine count)
    hlines with ⟨hverdicts, hentries⟩
  have hverdict := (append_line_inj (newline_notMem_verdictLine verdict)
    (newline_notMem_verdictLine other) hverdicts).2
  exact ⟨verdictLine_inj (String.toList_inj.1 hverdict),
    entriesLine_inj (String.toList_inj.1 hentries)⟩

/-! ## Calls -/

/-- A call for one evaluation at a fixed time: the words, which ask for it, the files, among
them those with the graph and the context, and their texts.  If a snapshot file is asked
for, it can be written. -/
structure EvaluationCall where
  words : List String
  arguments : Arguments
  files : Files
  graphText : String
  contextText : String
  now : Timestamp
  ofWords_eq : Arguments.ofWords words = .ok arguments
  catalog_eq : arguments.catalog = false
  validateOnly_eq : arguments.validateOnly = false
  now_eq : arguments.now = some now
  read?_graph : arguments.graphPath.bind files.read? = some graphText
  read?_context : arguments.contextPath.bind files.read? = some contextText
  writable_snapshot : ∀ path ∈ arguments.snapshotOut, files.writable path = true

namespace EvaluationCall

/-- The call for given texts, with a count and a snapshot file if wanted: any of them can be
asked for. -/
def ofTexts (graphText contextText : String) (declared : Option UInt64) (now : Timestamp)
    (snapshotOut : Option String) : EvaluationCall :=
  let arguments : Arguments :=
    ⟨some "graph", some "context", snapshotOut, false, false, declared, some now⟩
  { words := arguments.words
    arguments := arguments
    files := ⟨[("graph", graphText), ("context", contextText)], fun _ => true⟩
    graphText := graphText
    contextText := contextText
    now := now
    ofWords_eq := Arguments.ofWords_words fun _ => rfl
    catalog_eq := rfl
    validateOnly_eq := rfl
    now_eq := rfl
    read?_graph := by simp [arguments, Files.read?]
    read?_context := by
      have hplaces : place "graph" ≠ place "context" := by decide
      simp [arguments, Files.read?, hplaces]
    writable_snapshot := fun _ _ => rfl }

variable (call : EvaluationCall) (clock : Timestamp)

/-- An outcome is reported, and its snapshot written if that was asked for. -/
theorem finish_decides [EntryOrder] (front : List String) (outcome : Outcome) :
    (finish call.files call.arguments.snapshotOut front outcome).exitCode = 0 ∧
      Prints call.arguments.snapshotOut
        (finish call.files call.arguments.snapshotOut front outcome).output
        outcome.verdict outcome.snapshot.size := by
  have hreport : Result.lines (front ++ decisionLines call.arguments.snapshotOut outcome.verdict
      outcome.snapshot.size) = Result.lines front ++ _ := lines_append front _
  unfold finish
  cases hout : call.arguments.snapshotOut with
  | none =>
      rw [hout] at hreport
      exact ⟨rfl, Result.lines front, hreport⟩
  | some path =>
      rw [hout] at hreport
      have hwritable := call.writable_snapshot path hout
      simp only [Files.write?, hwritable, ↓reduceIte, true_and]
      refine ⟨Result.lines front, ?_⟩
      rw [← hreport, List.append_assoc]
      rfl

section AnyEngine

variable [SchemaEngine] [EntryOrder] {evaluator : Evaluator}

/-- What the call does, by whatever time the clock shows and in whatever order entries are
written. -/
def result (clock : Timestamp) : Result := run call.words call.files clock

/-- The text of the graph, loaded as a definition with the declared number of nodes. -/
def Loads (definition : GraphDefinition) : Prop :=
  ∃ stored, GraphDefinition.ofText call.graphText = .ok stored ∧
    definition = stored.declaring call.arguments.declaredNodes

/-- The library comes to a decision: the definition loads and compiles, the context decodes,
and the evaluation succeeds with the verdict and with a snapshot of so many entries. -/
def Decides (evaluator : Evaluator) (verdict : Bool) (entries : Nat) : Prop :=
  ∃ definition graph context outcome, call.Loads definition ∧
    Graph.compile definition = .ok graph ∧ Context.ofText? call.contextText = some context ∧
      (evaluator.evaluate graph context call.now).1 = .ok outcome ∧
        outcome.verdict = verdict ∧ outcome.snapshot.size = entries

/-- The library rejects the definition: it loads but does not pass validation. -/
def Rejects : Prop :=
  ∃ definition errors, call.Loads definition ∧
    Graph.compile definition = .error (.invalid errors)

/-! ## Steps of a call -/

/-- A text that loads is run as the definition it holds. -/
theorem result_of_loads {definition : GraphDefinition} (h : call.Loads definition) :
    call.result clock = runDefinition call.arguments call.files clock definition := by
  rcases h with ⟨stored, hstored, rfl⟩
  rcases Option.bind_eq_some_iff.1 call.read?_graph with ⟨path, hpath, hread⟩
  have hload : loadDefinition call.files path call.arguments.declaredNodes =
      .ok (stored.declaring call.arguments.declaredNodes) :=
    loadDefinition_eq_ok_iff.2 ⟨_, stored, hread, hstored, rfl⟩
  simp only [result, run, call.ofWords_eq, runArguments, call.catalog_eq, hpath, hload,
    Bool.false_eq_true, ↓reduceIte]

/-- A text that does not load ends the call. -/
theorem exitCode_of_not_loads (h : ∀ definition, ¬ call.Loads definition) :
    (call.result clock).exitCode = 1 := by
  rcases Option.bind_eq_some_iff.1 call.read?_graph with ⟨path, hpath, hread⟩
  cases hstored : GraphDefinition.ofText call.graphText with
  | ok stored => exact absurd ⟨stored, hstored, rfl⟩ (h _)
  | error error =>
      simp only [result, run, call.ofWords_eq, runArguments, call.catalog_eq, hpath,
        loadDefinition, hread, hstored, Bool.false_eq_true, ↓reduceIte, Result.failure]

variable {definition : GraphDefinition} {graph : Graph} {context : Context}

/-- An invalid definition is reported. -/
theorem exitCode_of_invalid {errors : List GraphError}
    (h : Graph.compile definition = .error (.invalid errors)) :
    (runDefinition call.arguments call.files clock definition).exitCode = 2 := by
  rcases Graph.compile_eq_invalid_iff.1 h with ⟨rfl, hne⟩
  unfold runDefinition
  split
  · rename_i hreport
    exact absurd hreport hne
  · rfl

/-- The line on a valid definition. -/
def validLine (definition : GraphDefinition) : String :=
  "Graph '" ++ definition.name ++ "' is valid (" ++ toString definition.nodes.length ++ " nodes)."

/-- A definition that compiles is evaluated over the context, if that decodes. -/
theorem runDefinition_of_compiled (h : Graph.compile definition = .ok graph) :
    runDefinition call.arguments call.files clock definition =
      match Context.ofText? call.contextText with
      | none => Result.failure call.files [validLine definition] "Failed to parse context JSON"
      | some context =>
        match (Evaluator.fresh.evaluate graph context call.now).1 with
        | .error error => Result.failure call.files [validLine definition]
            ("Evaluation failed (" ++ error.kind.title ++ "): " ++ error.message)
        | .ok outcome =>
          finish call.files call.arguments.snapshotOut [validLine definition] outcome := by
  rcases Graph.compile_eq_ok_iff.1 h with ⟨haccepted, hbuild⟩
  rcases Option.bind_eq_some_iff.1 call.read?_context with ⟨path, hpath, hread⟩
  simp only [runDefinition, haccepted, call.validateOnly_eq, evaluateDefinition, hpath,
    loadContext, hread, evaluateOnce, hbuild, call.now_eq, Option.getD_some,
    Bool.false_eq_true, ↓reduceIte, validLine]
  cases Context.ofText? call.contextText with
  | none => rfl
  | some context =>
      dsimp only
      cases (Evaluator.fresh.evaluate graph context call.now).1 <;> rfl

/-! ## Ways to end -/

omit [EntryOrder] in
/-- The call's own evaluator is fresh, and answers like any other. -/
theorem evaluate_fst_eq_fresh (hevaluator : evaluator.Reachable) (graph : Graph)
    (context : Context) : (evaluator.evaluate graph context call.now).1 =
      (Evaluator.fresh.evaluate graph context call.now).1 :=
  have hfresh : Evaluator.fresh.Reachable := .made SchemaCache.defaultCapacity fun _ => 0
  Evaluator.evaluate_fst_eq_of_sound hevaluator.sound hfresh.sound graph context call.now

/-- A decision of the library is what the call ends with. -/
theorem exit_of_decides (hevaluator : evaluator.Reachable) {verdict : Bool} {entries : Nat}
    (h : call.Decides evaluator verdict entries) :
    (call.result clock).exitCode = 0 ∧
      Prints call.arguments.snapshotOut (call.result clock).output verdict entries := by
  rcases h with ⟨definition, graph, context, outcome, hloads, hcompile, hcontext, houtcome,
    rfl, rfl⟩
  rw [call.evaluate_fst_eq_fresh hevaluator] at houtcome
  rw [call.result_of_loads clock hloads, call.runDefinition_of_compiled clock hcompile, hcontext]
  dsimp only
  rw [houtcome]
  exact call.finish_decides _ outcome

/-- The rejection of a definition is what the call ends with. -/
theorem exit_of_rejects (h : call.Rejects) : (call.result clock).exitCode = 2 := by
  rcases h with ⟨definition, errors, hloads, hcompile⟩
  rw [call.result_of_loads clock hloads]
  exact call.exitCode_of_invalid clock hcompile

/-- There is no third way but failure. -/
theorem exit_cases (hevaluator : evaluator.Reachable) :
    (∃ verdict entries, call.Decides evaluator verdict entries) ∨ call.Rejects ∨
      (call.result clock).exitCode = 1 := by
  by_cases hloaded : ∃ definition, call.Loads definition
  · rcases hloaded with ⟨definition, hloads⟩
    cases hcompile : Graph.compile definition with
    | error error =>
        cases error with
        | invalid errors => exact .inr (.inl ⟨definition, errors, hloads, hcompile⟩)
        | definition error => exact absurd hcompile (Graph.compile_ne_definition definition error)
        | node error => exact absurd hcompile (Graph.compile_ne_node definition error)
    | ok graph =>
        rw [call.result_of_loads clock hloads, call.runDefinition_of_compiled clock hcompile]
        cases hcontext : Context.ofText? call.contextText with
        | none => exact .inr (.inr rfl)
        | some context =>
            cases houtcome : (Evaluator.fresh.evaluate graph context call.now).1 with
            | error error =>
                simp only [houtcome, Result.failure]
                exact .inr (.inr trivial)
            | ok outcome =>
                refine .inl ⟨outcome.verdict, outcome.snapshot.size, definition, graph, context,
                  outcome, hloads, hcompile, hcontext, ?_, rfl, rfl⟩
                rwa [call.evaluate_fst_eq_fresh hevaluator]
  · rw [not_exists] at hloaded
    exact .inr (.inr (call.exitCode_of_not_loads clock hloaded))

/-- The command line decides what the library decides.  A call ends with zero and a report of
a verdict and a number of entries exactly if the library comes to that decision, on any
evaluator; it ends with two exactly if the library rejects the definition; and in every other
case it ends with one. -/
theorem run_decides_as_library (call : EvaluationCall) {evaluator : Evaluator}
    (hevaluator : evaluator.Reachable) (clock : Timestamp) :
    (∀ verdict entries,
      (call.result clock).exitCode = 0 ∧
          Prints call.arguments.snapshotOut (call.result clock).output verdict entries ↔
        call.Decides evaluator verdict entries) ∧
      ((call.result clock).exitCode = 2 ↔ call.Rejects) ∧
      ((call.result clock).exitCode = 1 ↔
        (¬∃ verdict entries, call.Decides evaluator verdict entries) ∧ ¬call.Rejects) := by
  have hcases := call.exit_cases clock hevaluator
  have htwo : call.Rejects → (call.result clock).exitCode = 2 := call.exit_of_rejects clock
  refine ⟨fun verdict entries => ⟨?_, call.exit_of_decides clock hevaluator⟩, ⟨?_, htwo⟩, ⟨?_, ?_⟩⟩
  · rintro ⟨hexit, hprints⟩
    rcases hcases with ⟨other, count, hdecides⟩ | hrejects | hfails
    · rcases (call.exit_of_decides clock hevaluator hdecides).2.inj hprints with ⟨rfl, rfl⟩
      exact hdecides
    · exact absurd (hexit.symm.trans (htwo hrejects)) (by decide)
    · exact absurd (hexit.symm.trans hfails) (by decide)
  · intro hexit
    rcases hcases with ⟨verdict, entries, hdecides⟩ | hrejects | hfails
    · have hzero := (call.exit_of_decides clock hevaluator hdecides).1
      exact absurd (hexit.symm.trans hzero) (by decide)
    · exact hrejects
    · exact absurd (hexit.symm.trans hfails) (by decide)
  · intro hexit
    refine ⟨?_, fun hrejects => absurd (hexit.symm.trans (htwo hrejects)) (by decide)⟩
    rintro ⟨verdict, entries, hdecides⟩
    have hzero := (call.exit_of_decides clock hevaluator hdecides).1
    exact absurd (hexit.symm.trans hzero) (by decide)
  · rintro ⟨hundecided, haccepted⟩
    exact (hcases.resolve_left hundecided).resolve_left haccepted

end AnyEngine

/-- A definition of three nodes that was stored with a wrong count. -/
def miscounted : GraphDefinition :=
  ⟨"watch", some 4, [.provider 1 "source.a", .config 2 .anyChange [1], .final 3 (some 2)]⟩

/-- A stored context with a value at the path that is watched. -/
def seen : Document := .object [("source", .object [("a", .bool true)])]

/-- The definition is read from its text, with the count as stored. -/
theorem ofText_miscounted : GraphDefinition.ofText miscounted.toDocument.text = .ok miscounted := by
  have hfits : miscounted.FitsIn 0 := by
    intro node hnode v hconstant
    rcases List.mem_cons.1 hnode with rfl | hnode
    · cases hconstant
    · rcases List.mem_pair.1 hnode with rfl | rfl <;> cases hconstant
  rw [GraphDefinition.ofText, Tree.ofText?_text hfits.allFinite_toDocument]
  rfl

/-- The context is read from its text. -/
theorem ofText?_seen : Context.ofText? seen.text =
    some ⟨some (.object [("a", .bool true)]), none⟩ := by
  have hfinite : seen.AllFinite := ⟨⟨trivial, trivial⟩, trivial⟩
  rw [Context.ofText?, Tree.ofText?_text hfinite]
  rfl

/-- The nodes of the definition with inputs resolved and in order. -/
def watchGraph : Graph :=
  ⟨miscounted.nodes, [(3, 2), (2, 1), (1, 0)], [[], [0], [1]], ⟨[0, 1, 2], false, []⟩⟩

section BooleanSchemas

attribute [local instance] SchemaEngine.booleans EntryOrder.ascending

/-- The value that is seen for the first time is a change. -/
theorem exists_outcome_seen : ∃ outcome, (Evaluator.fresh.evaluate watchGraph
    ⟨some (.object [("a", .bool true)]), none⟩ 7).1 = .ok outcome ∧
      outcome.verdict = true ∧ outcome.snapshot.size = 1 :=
  ⟨_, rfl, rfl, rfl⟩

/-- The call for both, with a count if it is to be corrected. -/
def watching (declared : Option UInt64) : EvaluationCall :=
  .ofTexts miscounted.toDocument.text seen.text declared 7 (some "snapshot")

/-- With the count corrected the call comes to a decision, with the stored one it ends in a
rejection, and without a text it fails. -/
theorem watching_ends_in_three_ways :
    (((watching (some 3)).result 0).exitCode = 0 ∧
        Prints (some "snapshot") ((watching (some 3)).result 0).output true 1) ∧
      ((watching none).result 0).exitCode = 2 ∧
      ((ofTexts "" seen.text none 7 none).result 0).exitCode = 1 := by
  have hfresh : Evaluator.fresh.Reachable := .made SchemaCache.defaultCapacity fun _ => 0
  have hdecides : (watching (some 3)).Decides .fresh true 1 := by
    rcases exists_outcome_seen with ⟨outcome, houtcome, hverdict, hsize⟩
    exact ⟨_, watchGraph, _, outcome, ⟨_, ofText_miscounted, rfl⟩, rfl, ofText?_seen, houtcome,
      hverdict, hsize⟩
  have hrejects : (watching none).Rejects := ⟨_, _, ⟨_, ofText_miscounted, rfl⟩, rfl⟩
  have hnothing : ∀ definition, ¬ (ofTexts "" seen.text none 7 none).Loads definition := by
    rintro definition ⟨stored, hstored, -⟩
    have hunreadable : GraphDefinition.ofText "" = .error .unreadable := by rfl
    cases hunreadable.symm.trans hstored
  refine ⟨((run_decides_as_library _ hfresh 0).1 _ _).2 hdecides,
    (run_decides_as_library _ hfresh 0).2.1.2 hrejects,
    (run_decides_as_library _ hfresh 0).2.2.2 ⟨?_, ?_⟩⟩
  · rintro ⟨verdict, entries, definition, -, -, -, hloads, -⟩
    exact hnothing definition hloads
  · rintro ⟨definition, -, hloads, -⟩
    exact hnothing definition hloads

end BooleanSchemas

end EvaluationCall

end CommandLine

end TriggerGraph
