import TriggerGraph.Change

/-!
# The data of a pass

Besides its graph a pass reads a context: the source data, keyed by the systems it
comes from, and the snapshot that the pass before left.

Main results:

- Definition `Context.previous`: the snapshot that a pass compares with.
-/

namespace TriggerGraph

/-- What a pass reads besides its graph. -/
structure Context where
  source : Option Document
  snapshot : Option Snapshot

namespace Context

/-- A context without data. -/
def empty : Context := ⟨none, none⟩

/-- The context of a source; a null source is one too. -/
def ofSource (source : Document) : Context := ⟨some source, none⟩

/-- The context with the snapshot of an earlier pass. -/
def withSnapshot (context : Context) (snapshot : Snapshot) : Context :=
  { context with snapshot := some snapshot }

/-- The snapshot to compare with; without one, nothing is remembered. -/
def previous (context : Context) : Snapshot := context.snapshot.getD Snapshot.empty

end Context

end TriggerGraph
