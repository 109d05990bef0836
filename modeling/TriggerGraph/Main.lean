import Std.Time.DateTime.Timestamp
import TriggerGraph.CommandLine.Run

/-!
# The command line program

The program reads the files that its arguments name, runs, prints the two texts and
writes the snapshot file if the run made one.  It is a program for every schema engine
and for every order of the entries of a snapshot.
-/

namespace TriggerGraph.CommandLine

/-- The contents of a file, if it can be read. -/
def readFile? (path : String) : IO (Option String) := do
  try
    return some (← IO.FS.readFile path)
  catch _ => return none

/-- The files that arguments name, as far as they can be read.  Every path counts as
writable until a write fails. -/
def gather (arguments : Arguments) : IO Files := do
  let mut contents := []
  for path in arguments.graphPath.toList ++ arguments.contextPath.toList do
    match ← readFile? path with
    | some text => contents := (path, text) :: contents
    | none => pure ()
  return ⟨contents, fun _ => true⟩

/-- The milliseconds since the epoch by the wall clock. -/
def wallClock : IO Timestamp := do
  return Int64.ofInt (← Std.Time.Timestamp.now).toMillisecondsSinceUnixEpoch.val

/-- Writes the snapshot file if the run made or changed it; whether that succeeded. -/
def commit (arguments : Arguments) (before : Files) (result : Result) : IO Bool := do
  let some path := arguments.snapshotOut | return true
  let some text := result.files.read? path | return true
  if before.read? path = some text then return true
  try
    IO.FS.writeFile path text
    return true
  catch _ => return false

/-- Prints what a run says. -/
def report (result : Result) : IO UInt32 := do
  IO.print result.output
  IO.eprint result.errors
  return UInt32.ofNat result.exitCode

/-- Runs the command line. -/
def program [SchemaEngine] [EntryOrder] (words : List String) : IO UInt32 := do
  let clock ← wallClock
  match Arguments.ofWords words with
  | .error _ => report (run words ⟨[], fun _ => false⟩ clock)
  | .ok arguments =>
    let files ← gather arguments
    let result := runArguments arguments files clock
    if result.exitCode = 0 && !(← commit arguments files result) then
      report (runArguments arguments { files with writable := fun _ => false } clock)
    else report result

end TriggerGraph.CommandLine
