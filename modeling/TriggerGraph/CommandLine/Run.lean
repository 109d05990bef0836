import TriggerGraph.CommandLine.Arguments
import TriggerGraph.Evaluation.Evaluator
import TriggerGraph.Operator.Catalog
import TriggerGraph.Stored.Context
import TriggerGraph.Stored.Definition

/-!
# Runs of the command line

A run reads a definition and a context, validates the graph, evaluates it once and
may write the new snapshot.  It is a function of the arguments, the files, the clock
and the order in which the entries of a snapshot are written: it yields an exit code,
two texts and the files as they are afterwards.

Main results:

- Theorem `Files.read?_write?`: a written file reads back.
- Theorem `files_of_refused`: a run whose words are no arguments leaves the files alone.
- Theorem `run_catalog`: asking for the catalog reads no file.
-/

namespace TriggerGraph.CommandLine

/-! ## Files -/

/-- Whether a step of a path leads elsewhere: a dot and the empty step between two
slashes do not. -/
def moves (step : List Char) : Bool := step ≠ [] && step ≠ ['.']

/-- Where a path leads: its steps without those that stay in place.  An empty first
step, of a path from the root, and an empty last one, of a directory, count. -/
def place (path : String) : List (List Char) :=
  match Path.pieces '/' path.toList with
  | [] => []
  | first :: rest =>
    (if first = ['.'] then [] else [first]) ++ rest.dropLast.filter moves
      ++ rest.getLast?.toList.map fun step => if moves step then step else []

/-- The files that a run can see, by path. -/
structure Files where
  contents : List (String × String)
  /-- Whether a file can be made at a path. -/
  writable : String → Bool

namespace Files

/-- The contents of a file. -/
def read? (files : Files) (path : String) : Option String :=
  (files.contents.find? fun file => place file.1 = place path).map (·.2)

/-- The files with one file written, if it can be. -/
def write? (files : Files) (path text : String) : Option Files :=
  if files.writable path then
    some { files with contents := (path, text) :: files.contents }
  else none

/-- Whether the steps lead to a directory above one of the files. -/
def holds (contents : List (String × String)) (steps : List (List Char)) : Bool :=
  contents.any fun file => steps.isPrefixOf (place file.1).dropLast

/-- The files of one directory tree: a file can be made in any directory of it, but
not in place of one. -/
def ofList (contents : List (String × String)) : Files :=
  ⟨contents, fun path => match (place path).getLast? with
    | none => false
    | some name => name ≠ [] && !holds contents (place path) &&
      ((place path).dropLast = [] || holds contents (place path).dropLast)⟩

/-- A written file reads back. -/
theorem read?_write? {files after : Files} {path text : String}
    (h : files.write? path text = some after) : after.read? path = some text := by
  unfold write? at h
  split at h
  · cases h
    simp [read?]
  · cases h

/-- Writing a file leaves the files at other places alone. -/
theorem read?_write?_of_ne {files after : Files} {path text other : String}
    (h : files.write? path text = some after) (hplace : place path ≠ place other) :
    after.read? other = files.read? other := by
  unfold write? at h
  split at h
  · cases h
    simp [read?, hplace]
  · cases h

end Files

/-! ## Results -/

/-- What a run leaves behind. -/
structure Result where
  exitCode : Nat
  output : String
  errors : String
  files : Files

namespace Result

/-- A text with its lines closed. -/
def lines (texts : List String) : String := String.join (texts.map (· ++ "\n"))

/-- A run that stops with an error; `output` is what it had printed before. -/
def failure (files : Files) (output : List String) (message : String) : Result :=
  ⟨1, lines output, lines ["", "Error: " ++ message], files⟩

end Result

/-- Why a file cannot be read or made. -/
def missingFile : String := "No such file or directory (os error 2)"

/-! ## Steps of a run -/

/-- The definition at a path, with the declared number of nodes replaced if one is
given, or the reason why there is none. -/
def loadDefinition (files : Files) (path : String) (declared : Option UInt64) :
    Except String GraphDefinition :=
  match files.read? path with
  | none => .error ("Failed to read graph file '" ++ path ++ "': " ++ missingFile)
  | some text => match GraphDefinition.ofText text with
    | .error error => .error ("Failed to load graph '" ++ path ++ "': " ++ error.message)
    | .ok definition => .ok <| match declared with
      | some count => definition.withNodeCount count
      | none => definition

/-- The context at a path, or the reason why there is none. -/
def loadContext (files : Files) (path : String) : Except String Context :=
  match files.read? path with
  | none => .error ("Failed to read context file '" ++ path ++ "': " ++ missingFile)
  | some text => match Context.ofText? text with
    | none => .error "Failed to parse context JSON"
    | some context => .ok context

variable [SchemaEngine]

/-- The outcome of one evaluation of a node list, or the reason why there is none. -/
def evaluateOnce (nodes : List Node) (context : Context) (now : Timestamp) :
    Except String Outcome :=
  match Graph.build nodes with
  | .error error => .error ("Failed to build graph: " ++ error.message)
  | .ok graph => match (Evaluator.fresh.evaluate graph context now).1 with
    | .error error =>
      .error ("Evaluation failed (" ++ error.kind.title ++ "): " ++ error.message)
    | .ok outcome => .ok outcome

variable [EntryOrder]

/-- The report of a successful evaluation, and the snapshot written if it is wanted. -/
def finish (files : Files) (snapshotOut : Option String) (output : List String)
    (outcome : Outcome) : Result :=
  let report := output ++ ["", "Verdict: " ++ (if outcome.verdict then "true" else "false"),
    "Snapshot entries: " ++ toString outcome.snapshot.size]
  match snapshotOut with
  | none => ⟨0, Result.lines report, "", files⟩
  | some path => match files.write? path outcome.snapshot.toDocument.prettyText with
    | none =>
      Result.failure files report
        ("Failed to write snapshot to '" ++ path ++ "': " ++ missingFile)
    | some after =>
      ⟨0, Result.lines (report ++ ["Snapshot written to '" ++ path ++ "'"]), "", after⟩

/-- The evaluation of a definition that is valid. -/
def evaluateDefinition (arguments : Arguments) (files : Files) (clock : Timestamp)
    (definition : GraphDefinition) (output : List String) : Result :=
  match arguments.contextPath with
  | none =>
    Result.failure files output "A data context path is required for evaluation."
  | some path => match loadContext files path with
    | .error message => Result.failure files output message
    | .ok context =>
      match evaluateOnce definition.nodes context (arguments.now.getD clock) with
      | .error message => Result.failure files output message
      | .ok outcome => finish files arguments.snapshotOut output outcome

/-- The run on a definition: its faults, or its evaluation. -/
def runDefinition (arguments : Arguments) (files : Files) (clock : Timestamp)
    (definition : GraphDefinition) : Result :=
  match Validation.validate definition.nodes definition.declaredCount with
  | [] =>
    let output := ["Graph '" ++ definition.name ++ "' is valid ("
      ++ toString definition.nodes.length ++ " nodes)."]
    if arguments.validateOnly then ⟨0, Result.lines output, "", files⟩
    else evaluateDefinition arguments files clock definition output
  | errors =>
    let report := ["", "Graph '" ++ definition.name ++ "' is invalid:"]
      ++ errors.map fun error => "  - " ++ error.message
    ⟨2, "", Result.lines report, files⟩

/-- The run that arguments ask for. -/
def runArguments (arguments : Arguments) (files : Files) (clock : Timestamp) : Result :=
  if arguments.catalog then ⟨0, Result.lines [Catalog.document.prettyText], "", files⟩
  else match arguments.graphPath with
    | none => Result.failure files [] "A graph definition path is required."
    | some path => match loadDefinition files path arguments.declaredNodes with
      | .error message => Result.failure files [] message
      | .ok definition => runDefinition arguments files clock definition

/-- How to call the command line. -/
def usage : String :=
  "usage: [--snapshot-out FILE] [--validate-only] [--catalog] [--declared-nodes COUNT] "
    ++ "[--now MILLIS] [GRAPH] [CONTEXT]"

/-- The run that words ask for. -/
def run (words : List String) (files : Files) (clock : Timestamp) : Result :=
  match Arguments.ofWords words with
  | .ok arguments => runArguments arguments files clock
  | .error .help => ⟨0, Result.lines [usage], "", files⟩
  | .error .misuse => ⟨2, "", Result.lines [usage], files⟩

/-! ## What a run touches -/

/-- A run whose words are no arguments leaves the files alone. -/
theorem files_of_refused {words : List String} {refusal : Refusal}
    (h : Arguments.ofWords words = .error refusal) (files : Files) (clock : Timestamp) :
    (run words files clock).files = files := by
  unfold run
  rw [h]
  cases refusal <;> rfl

/-- Asking for the catalog reads no file. -/
theorem run_catalog {arguments : Arguments} (h : arguments.catalog = true) (files : Files)
    (clock : Timestamp) :
    runArguments arguments files clock
      = ⟨0, Result.lines [Catalog.document.prettyText], "", files⟩ := by
  simp [runArguments, h]

end TriggerGraph.CommandLine
