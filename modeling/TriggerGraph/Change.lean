import TriggerGraph.Value.Equality

/-!
# Change detection

A snapshot remembers, for each provider path, the value last seen there and since
when.  Detection compares the values observed now with a snapshot, decides whether
the changes are enough to fire, and yields the next snapshot.  A path without an
entry counts as changed, and an unchanged path keeps its entry as it is.

Main results:

- Theorem `entryOf_of_unchanged`: an unchanged path keeps its entry.
- Theorem `detect_fired_of_inactive`: an inactive detection never fires.
-/

namespace TriggerGraph

/-- Milliseconds since the epoch. -/
abbrev Timestamp := Int64

/-! ## Snapshots -/

/-- What a snapshot remembers of one path. -/
structure SnapshotEntry where
  value : Option Value
  timestamp : Timestamp

/-- The remembered entries by path. -/
structure Snapshot where
  entries : List (String × SnapshotEntry)
  ascending : Keyed.Ascending entries

namespace Snapshot

/-- The snapshot that remembers nothing. -/
def empty : Snapshot := ⟨[], Keyed.ascending_nil⟩

/-- The entry at a path. -/
def find? (snapshot : Snapshot) (path : String) : Option SnapshotEntry :=
  Keyed.find? path snapshot.entries

/-- The snapshot with the entry at a path set. -/
def insert (snapshot : Snapshot) (path : String) (entry : SnapshotEntry) : Snapshot :=
  ⟨Keyed.insert path entry snapshot.entries, snapshot.ascending.insert path entry⟩

/-- The snapshot of entries given in any order; the last one at a path stays. -/
def ofList (entries : List (String × SnapshotEntry)) : Snapshot :=
  ⟨Keyed.ofList entries, Keyed.ascending_ofList entries⟩

/-- The snapshot that holds the entries of `newer` over those of `older`. -/
def union (older newer : Snapshot) : Snapshot :=
  ⟨Keyed.union older.entries newer.entries, Keyed.ascending_union older.ascending newer.entries⟩

/-- The number of remembered paths. -/
def size (snapshot : Snapshot) : Nat := snapshot.entries.length

/-- The remembered paths, ascending. -/
def paths (snapshot : Snapshot) : List String := snapshot.entries.map (·.1)

@[simp] theorem find?_empty (path : String) : empty.find? path = none :=
  rfl

end Snapshot

/-! ## Settings -/

/-- How the hits of single paths combine. -/
inductive DetectionMode where
  | anyPath
  | everyPath
deriving DecidableEq

namespace DetectionMode

/-- Both modes. -/
def all : List DetectionMode := [anyPath, everyPath]

/-- The name in stored form. -/
def wireName : DetectionMode → String
  | anyPath => "OR"
  | everyPath => "AND"

/-- The mode of a stored name. -/
def ofWireName? (name : String) : Option DetectionMode := all.find? fun m => m.wireName = name

/-- Whether `hits` paths out of `total` are enough. -/
def enough (mode : DetectionMode) (hits total : Nat) : Bool :=
  match mode with
  | anyPath => 0 < hits
  | everyPath => hits = total

end DetectionMode

/-- The settings of a change detection node. -/
structure Detection where
  mode : DetectionMode
  active : Bool
  windowEnabled : Bool
  windowMillis : Int64
deriving DecidableEq

namespace Detection

/-- Fires on any change. -/
def anyChange : Detection := ⟨.anyPath, true, false, 0⟩

/-- Fires when everything changed. -/
def allChanged : Detection := { anyChange with mode := .everyPath }

/-- The detection that counts entries of the last `millis` milliseconds as hits. -/
def within (detection : Detection) (millis : Int64) : Detection :=
  { detection with windowEnabled := true, windowMillis := millis }

/-- The detection that never fires. -/
def inactive (detection : Detection) : Detection := { detection with active := false }

/-! ## Detection -/

/-- What is seen at a path now. -/
abbrev Observation := String × Option Value

/-- Whether an observation differs from what is remembered. -/
def isChanged (previous : Snapshot) (observed : Observation) : Bool :=
  match previous.find? observed.1 with
  | some old => !Value.equalOption old.value observed.2
  | none => true

/-- The entry that an observation leaves. -/
def entryOf (previous : Snapshot) (now : Timestamp) (observed : Observation) : SnapshotEntry :=
  match previous.find? observed.1 with
  | some old => if Value.equalOption old.value observed.2 then old else ⟨observed.2, now⟩
  | none => ⟨observed.2, now⟩

/-- The snapshot that observations leave. -/
def nextSnapshot (previous : Snapshot) (now : Timestamp) (observed : List Observation) :
    Snapshot :=
  Snapshot.ofList (observed.map fun o => (o.1, entryOf previous now o))

/-- The first moment of a window that ends now, kept within the range of timestamps. -/
def windowStart (now : Timestamp) (millis : Int64) : Int :=
  min (max (now.toInt - millis.toInt) Int64.minValue.toInt) Int64.maxValue.toInt

/-- Whether an entry lies in the window that ends now. -/
def isRecent (now : Timestamp) (millis : Int64) (entry : SnapshotEntry) : Bool :=
  windowStart now millis ≤ entry.timestamp.toInt && entry.timestamp.toInt ≤ now.toInt

/-- What a detection decided. -/
structure Report where
  fired : Bool
  changed : Nat
  snapshot : Snapshot

/-- Compares the observations with the previous snapshot.  A hit is a changed path,
or with a window a path whose entry is recent; without observations an active
detection lets everything pass. -/
def detect (detection : Detection) (observed : List Observation) (previous : Snapshot)
    (now : Timestamp) : Report :=
  let snapshot := nextSnapshot previous now observed
  let changed := observed.countP (isChanged previous)
  let hits :=
    if detection.windowEnabled then
      observed.countP fun o => (snapshot.find? o.1).any (isRecent now detection.windowMillis)
    else changed
  ⟨detection.active && (observed.isEmpty || detection.mode.enough hits observed.length),
    changed, snapshot⟩

/-- An unchanged path keeps its entry. -/
theorem entryOf_of_unchanged {previous : Snapshot} {observed : Observation}
    {old : SnapshotEntry} (now : Timestamp) (hold : previous.find? observed.1 = some old)
    (h : isChanged previous observed = false) : entryOf previous now observed = old := by
  have hequal : Value.equalOption old.value observed.2 = true := by
    simpa [isChanged, hold] using h
  simp [entryOf, hold, hequal]

/-- A changed path gets a fresh entry. -/
theorem entryOf_of_changed {previous : Snapshot} {observed : Observation} (now : Timestamp)
    (h : isChanged previous observed = true) :
    entryOf previous now observed = ⟨observed.2, now⟩ := by
  unfold isChanged at h
  unfold entryOf
  split
  · rename_i old hold
    rw [hold] at h
    have hequal : Value.equalOption old.value observed.2 = false := by simpa using h
    simp [hequal]
  · rfl

/-- An inactive detection never fires. -/
theorem detect_fired_of_inactive {detection : Detection} (h : detection.active = false)
    (observed : List Observation) (previous : Snapshot) (now : Timestamp) :
    (detection.detect observed previous now).fired = false := by
  simp [detect, h]

end Detection

end TriggerGraph
