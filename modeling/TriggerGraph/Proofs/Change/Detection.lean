import TriggerGraph.Proofs.Keyed
import TriggerGraph.Proofs.Value.Equality

/-!
# What a detection reports

A detection sees one value at each path, however often the path is wired.  Then the
next snapshot has an entry for each observed path that depends on the path alone, and
counting hits comes to asking whether some path or every path hits.

Main results:

- Theorem `find?_nextSnapshot`: which entries the next snapshot holds.
- Theorem `isRecent_iff`: a window that is not negative is not cut off.
- Theorem `fired_iff`: when an active detection with observations fires.
- Theorem `detect_meets_specification`: what a detection reports, told by paths and exact
  windows, and that only the set of observations matters.
-/

namespace TriggerGraph

namespace Detection

variable {previous : Snapshot} {now : Timestamp} {observed : List Observation}
  {live : String → Option Value}

/-! ## The next snapshot -/

/-- An observed path has the entry that its value leaves. -/
theorem find?_nextSnapshot (hlive : ∀ o ∈ observed, o.2 = live o.1) {path : String}
    (hpath : path ∈ observed.map Prod.fst) :
    (nextSnapshot previous now observed).find? path =
      some (entryOf previous now (path, live path)) := by
  have hsame : ∀ o ∈ observed, o = (o.1, live o.1) := fun o ho => Prod.ext rfl (hlive o ho)
  rcases List.mem_map.1 hpath with ⟨o, ho, rfl⟩
  refine Keyed.find?_foldl_insert_of_mem ?_ ?_
  · refine List.mem_map.2 ⟨o, ho, ?_⟩
    rw [← hsame o ho]
  · intro entry hentry hkey
    rcases List.mem_map.1 hentry with ⟨other, hother, rfl⟩
    dsimp only at hkey ⊢
    rw [hsame other hother, hkey]

/-- A path that is not observed has no entry. -/
theorem find?_nextSnapshot_of_notMem {path : String} (hpath : path ∉ observed.map Prod.fst) :
    (nextSnapshot previous now observed).find? path = none := by
  refine (Keyed.find?_foldl_insert_of_forall_ne ?_).trans (Keyed.find?_nil path)
  intro entry hentry hkey
  rcases List.mem_map.1 hentry with ⟨o, ho, rfl⟩
  exact hpath (List.mem_map.2 ⟨o, ho, hkey⟩)

/-- The entry that an observation leaves holds an equal value. -/
theorem equalOption_entryOf (o : Observation) :
    Value.equalOption (entryOf previous now o).value o.2 = true := by
  cases hchanged : isChanged previous o with
  | true =>
      rw [entryOf_of_changed now hchanged]
      exact Value.equalOption_self o.2
  | false =>
      unfold isChanged at hchanged
      split at hchanged
      · rename_i old hold
        rw [entryOf_of_unchanged now hold (by simpa [isChanged, hold] using hchanged)]
        simpa using hchanged
      · cases hchanged

/-! ## Windows -/

/-- A window that is not negative reaches back to its exact start. -/
theorem isRecent_iff {millis : Int64} (hmillis : 0 ≤ millis.toInt) {entry : SnapshotEntry} :
    isRecent now millis entry = true ↔
      now.toInt - millis.toInt ≤ entry.timestamp.toInt ∧ entry.timestamp.toInt ≤ now.toInt := by
  have hnow := now.toInt_le
  have hlow := entry.timestamp.minValue_le_toInt
  have hmax : Int64.maxValue.toInt = 2 ^ 63 - 1 := rfl
  have hmin : Int64.minValue.toInt = -2 ^ 63 := rfl
  unfold isRecent windowStart
  rw [Bool.and_eq_true, decide_eq_true_eq, decide_eq_true_eq]
  omega

/-! ## Counting hits -/

/-- Whether an observation counts as a hit: it changed, or with a window the entry that
it leaves is recent. -/
def isHit (detection : Detection) (previous : Snapshot) (now : Timestamp) (o : Observation) :
    Bool :=
  if detection.windowEnabled then isRecent now detection.windowMillis (entryOf previous now o)
  else isChanged previous o

/-- Enough of some paths are hit, as the mode asks: some path or every path. -/
def Enough (mode : DetectionMode) (paths : List String) (hit : String → Prop) : Prop :=
  match mode with
  | .anyPath => ∃ path ∈ paths, hit path
  | .everyPath => ∀ path ∈ paths, hit path

/-- Whether enough paths are hit depends on which of the paths are. -/
theorem enough_congr {mode : DetectionMode} {paths : List String} {hit other : String → Prop}
    (h : ∀ path ∈ paths, hit path ↔ other path) :
    Enough mode paths hit ↔ Enough mode paths other := by
  cases mode with
  | anyPath => exact exists_congr fun path => and_congr_right (h path)
  | everyPath => exact forall₂_congr h

/-- Counting hits asks whether some or every observation is one. -/
theorem enough_countP_iff {mode : DetectionMode} {hit : Observation → Bool} :
    mode.enough (observed.countP hit) observed.length = true ↔
      match mode with
      | .anyPath => ∃ o ∈ observed, hit o = true
      | .everyPath => ∀ o ∈ observed, hit o = true := by
  cases mode with
  | anyPath => simp only [DetectionMode.enough, decide_eq_true_eq, List.countP_pos_iff]
  | everyPath => simp only [DetectionMode.enough, decide_eq_true_eq, List.countP_eq_length]

/-- What fires are the hits among the observations. -/
theorem fired_eq (detection : Detection) (hlive : ∀ o ∈ observed, o.2 = live o.1) :
    (detection.detect observed previous now).fired =
      (detection.active && (observed.isEmpty ||
        detection.mode.enough (observed.countP (detection.isHit previous now))
          observed.length)) := by
  have hhits : (if detection.windowEnabled then
        observed.countP fun o => ((nextSnapshot previous now observed).find? o.1).any
          (isRecent now detection.windowMillis)
      else observed.countP (isChanged previous)) =
        observed.countP (detection.isHit previous now) := by
    unfold isHit
    cases detection.windowEnabled with
    | false => rfl
    | true =>
        refine List.countP_congr fun o ho => ?_
        rw [find?_nextSnapshot hlive (List.mem_map_of_mem ho), ← hlive o ho]
        rfl
  unfold detect
  dsimp only
  rw [hhits]

/-- An active detection with observations fires exactly when enough of the observed paths
are hit. -/
theorem fired_iff {detection : Detection} (hactive : detection.active = true)
    (hobserved : observed ≠ []) (hlive : ∀ o ∈ observed, o.2 = live o.1) :
    (detection.detect observed previous now).fired = true ↔
      Enough detection.mode (observed.map Prod.fst) fun path =>
        detection.isHit previous now (path, live path) = true := by
  have hnonempty : observed.isEmpty = false := by simpa using hobserved
  have hsame : ∀ o ∈ observed, (o.1, live o.1) = o := fun o ho =>
    Prod.ext rfl (hlive o ho).symm
  rw [fired_eq detection hlive, hactive, hnonempty, Bool.true_and, Bool.false_or,
    enough_countP_iff]
  unfold Enough
  cases detection.mode with
  | anyPath =>
      constructor
      · rintro ⟨o, ho, hhit⟩
        refine ⟨o.1, List.mem_map_of_mem ho, ?_⟩
        dsimp only
        rwa [hsame o ho]
      · rintro ⟨path, hpath, hhit⟩
        rcases List.mem_map.1 hpath with ⟨o, ho, rfl⟩
        rw [hsame o ho] at hhit
        exact ⟨o, ho, hhit⟩
  | everyPath =>
      simp only [List.forall_mem_map]
      exact forall₂_congr fun o ho => by rw [hsame o ho]

/-! ## What a detection reports -/

/-- Wherever one path is observed, one value is observed there. -/
def Consistent (observed : List Observation) : Prop :=
  ∀ o ∈ observed, ∀ p ∈ observed, o.1 = p.1 → o.2 = p.2

/-- Consistent observations are those of one function of the paths. -/
theorem Consistent.exists_live (h : Consistent observed) :
    ∃ live : String → Option Value, ∀ o ∈ observed, o.2 = live o.1 := by
  refine ⟨fun path => (observed.find? fun o => o.1 = path).bind Prod.snd, ?_⟩
  intro o ho
  dsimp only
  cases hfind : observed.find? fun p => p.1 = o.1 with
  | none =>
      have hnone := List.find?_eq_none.1 hfind o ho
      simp at hnone
  | some p =>
      have hpath : p.1 = o.1 := by simpa using List.find?_some hfind
      exact h o ho p (List.mem_of_find?_eq_some hfind) hpath.symm

/-- Consistency does not depend on order and repetition. -/
theorem Consistent.of_mem_iff {other : List Observation} (h : Consistent observed)
    (hmem : ∀ o, o ∈ other ↔ o ∈ observed) : Consistent other :=
  fun o ho p hp => h o ((hmem o).1 ho) p ((hmem p).1 hp)

/-- The observation leaves a fresh entry: nothing is remembered of its path, or a value that
is not equal. -/
def Fresh (previous : Snapshot) (o : Observation) : Prop :=
  ∀ old, previous.find? o.1 = some old → Value.equalOption old.value o.2 = false

/-- An observation counts as changed if nothing equal is remembered at its path. -/
theorem isChanged_iff_fresh {o : Observation} :
    isChanged previous o = true ↔ Fresh previous o := by
  unfold isChanged Fresh
  cases previous.find? o.1 <;> simp

/-- A path hits when it got a fresh entry or, with a window, when its new entry lies within
the window, ends included.  Times are whole numbers here, and no sum is cut off. -/
def Hits (detection : Detection) (observed : List Observation) (previous : Snapshot)
    (now : Timestamp) (path : String) : Prop :=
  if detection.windowEnabled then
    ∃ entry, (nextSnapshot previous now observed).find? path = some entry ∧
      now.toInt - detection.windowMillis.toInt ≤ entry.timestamp.toInt ∧
        entry.timestamp.toInt ≤ now.toInt
  else ∃ o ∈ observed, o.1 = path ∧ Fresh previous o

/-- A path is hit if its change lies in the window, computed without overflow. -/
theorem isHit_iff_hits {detection : Detection} (hwindow : 0 ≤ detection.windowMillis.toInt)
    (hlive : ∀ o ∈ observed, o.2 = live o.1) {path : String}
    (hpath : path ∈ observed.map Prod.fst) :
    detection.isHit previous now (path, live path) = true ↔
      detection.Hits observed previous now path := by
  unfold isHit Hits
  cases detection.windowEnabled with
  | true => simp [find?_nextSnapshot hlive hpath, isRecent_iff hwindow]
  | false =>
      simp only [Bool.false_eq_true, ↓reduceIte, isChanged_iff_fresh]
      constructor
      · intro hfresh
        rcases List.mem_map.1 hpath with ⟨o, ho, rfl⟩
        refine ⟨o, ho, rfl, ?_⟩
        rwa [← hlive o ho] at hfresh
      · rintro ⟨o, ho, rfl, hfresh⟩
        rwa [← hlive o ho]

/-- Whether enough paths are hit does not depend on order and repetition. -/
theorem enough_iff_of_mem_iff {mode : DetectionMode} {paths others : List String}
    {hit : String → Prop} (h : ∀ path, path ∈ others ↔ path ∈ paths) :
    Enough mode others hit ↔ Enough mode paths hit := by
  cases mode with
  | anyPath => exact exists_congr fun path => and_congr_left fun _ => h path
  | everyPath => exact forall_congr' fun path => imp_congr_left (h path)

variable {detection : Detection} {other : List Observation}

/-- When a detection fires. -/
theorem fired_iff_hits (hwindow : 0 ≤ detection.windowMillis.toInt)
    (h : Consistent observed) :
    (detection.detect observed previous now).fired = true ↔
      detection.active = true ∧ (observed = [] ∨
        Enough detection.mode (observed.map Prod.fst)
          (detection.Hits observed previous now)) := by
  cases hactive : detection.active with
  | false => simp [detect_fired_of_inactive hactive]
  | true =>
      rcases h.exists_live with ⟨live, hlive⟩
      by_cases hobserved : observed = []
      · simp [hobserved, detect, hactive]
      · rw [fired_iff hactive hobserved hlive]
        simp only [hobserved, true_and, false_or]
        exact enough_congr fun path hpath => isHit_iff_hits hwindow hlive hpath

/-- Observations in another order or number leave the same snapshot. -/
theorem nextSnapshot_eq_of_mem_iff (h : Consistent observed)
    (hmem : ∀ o, o ∈ other ↔ o ∈ observed) :
    nextSnapshot previous now other = nextSnapshot previous now observed := by
  rcases h.exists_live with ⟨live, hlive⟩
  have hother : ∀ o ∈ other, o.2 = live o.1 := fun o ho => hlive o ((hmem o).1 ho)
  refine Snapshot.ext_find? fun path => ?_
  by_cases hpath : path ∈ observed.map Prod.fst
  · have hsame : path ∈ other.map Prod.fst := by simpa [hmem] using hpath
    rw [find?_nextSnapshot hlive hpath, find?_nextSnapshot hother hsame]
  · have hnot : path ∉ other.map Prod.fst := by simpa [hmem] using hpath
    rw [find?_nextSnapshot_of_notMem hpath, find?_nextSnapshot_of_notMem hnot]

/-- Observations in another order or number hit the same paths. -/
theorem hits_iff_of_mem_iff (h : Consistent observed) (hmem : ∀ o, o ∈ other ↔ o ∈ observed)
    (path : String) :
    detection.Hits other previous now path ↔ detection.Hits observed previous now path := by
  unfold Hits
  rw [nextSnapshot_eq_of_mem_iff h hmem]
  simp only [hmem]

/-- Observations in another order or number fire alike. -/
theorem fired_eq_of_mem_iff (hwindow : 0 ≤ detection.windowMillis.toInt)
    (h : Consistent observed) (hmem : ∀ o, o ∈ other ↔ o ∈ observed) :
    (detection.detect other previous now).fired =
      (detection.detect observed previous now).fired := by
  have hnil : other = [] ↔ observed = [] := by
    simp only [List.eq_nil_iff_forall_not_mem, hmem]
  have hpaths : ∀ path, path ∈ other.map Prod.fst ↔ path ∈ observed.map Prod.fst := by
    simp [hmem]
  rw [Bool.eq_iff_iff, fired_iff_hits hwindow h, fired_iff_hits hwindow (h.of_mem_iff hmem),
    hnil, enough_iff_of_mem_iff hpaths,
    enough_congr fun path _ => hits_iff_of_mem_iff h hmem path]

/-- What a detection with a window that is not negative reports of observations that agree
on each path, for all times.  The new snapshot has entries for the observed paths and no
others: the old entry where its value equals the live one, else the live value dated now.
An inactive detection does not fire; an active one fires when nothing is observed, and else
exactly when some of the observed paths hit, or all of them, as its mode asks.  Neither the
order nor the number of the observations matters. -/
theorem detect_meets_specification (hwindow : 0 ≤ detection.windowMillis.toInt)
    (h : Consistent observed) (previous : Snapshot) (now : Timestamp) :
    let report := detection.detect observed previous now
    (∀ path, path ∈ report.snapshot.paths ↔ path ∈ observed.map Prod.fst) ∧
      (∀ o ∈ observed,
        (∀ old, previous.find? o.1 = some old → Value.equalOption old.value o.2 = true →
          report.snapshot.find? o.1 = some old) ∧
        (Fresh previous o → report.snapshot.find? o.1 = some ⟨o.2, now⟩)) ∧
      (report.fired = true ↔ detection.active = true ∧ (observed = [] ∨
        Enough detection.mode (observed.map Prod.fst)
          (detection.Hits observed previous now))) ∧
      ∀ other : List Observation, (∀ o, o ∈ other ↔ o ∈ observed) →
        (detection.detect other previous now).fired = report.fired ∧
          (detection.detect other previous now).snapshot = report.snapshot := by
  intro report
  rcases h.exists_live with ⟨live, hlive⟩
  have hentry : ∀ o ∈ observed,
      report.snapshot.find? o.1 = some (entryOf previous now o) := by
    intro o ho
    have hfind : report.snapshot.find? o.1 = some (entryOf previous now (o.1, live o.1)) :=
      find?_nextSnapshot hlive (List.mem_map_of_mem ho)
    rwa [← hlive o ho] at hfind
  refine ⟨fun path => ?_, fun o ho => ⟨?_, ?_⟩, fired_iff_hits hwindow h, ?_⟩
  · rw [Snapshot.mem_paths_iff]
    constructor
    · rintro ⟨entry, hfound⟩
      by_contra hpath
      rw [show report.snapshot.find? path = none from
        find?_nextSnapshot_of_notMem hpath] at hfound
      cases hfound
    · intro hpath
      exact ⟨_, find?_nextSnapshot hlive hpath⟩
  · intro old hold hequal
    rw [hentry o ho, entryOf_of_unchanged now hold (by simp [isChanged, hold, hequal])]
  · intro hfresh
    rw [hentry o ho, entryOf_of_changed now (isChanged_iff_fresh.2 hfresh)]
  · intro other hmem
    exact ⟨fired_eq_of_mem_iff hwindow h hmem, nextSnapshot_eq_of_mem_iff h hmem⟩

/-- Two paths, one of them wired twice. -/
def glimpses : List Observation :=
  [("source.a", some (.bool true)), ("source.b", none), ("source.a", some (.bool true))]

/-- What was remembered of the first path as early as can be. -/
def earliest : Snapshot :=
  Snapshot.empty.insert "source.a" ⟨some (.bool true), Int64.minValue⟩

/-- The widest window reaches back beyond the earliest time, and both paths hit, in whatever
order they are observed. -/
theorem glimpses_all_hit :
    0 ≤ (allChanged.within Int64.maxValue).windowMillis.toInt ∧ Consistent glimpses ∧
      ((allChanged.within Int64.maxValue).detect glimpses earliest (-9)).fired = true ∧
      ((allChanged.within Int64.maxValue).detect glimpses.reverse earliest (-9)).fired = true ∧
      ((allChanged.within Int64.maxValue).detect glimpses.reverse earliest (-9)).snapshot.find?
        "source.a" = some ⟨some (.bool true), Int64.minValue⟩ := by
  have hwindow : 0 ≤ (allChanged.within Int64.maxValue).windowMillis.toInt := by decide
  have hconsistent : Consistent glimpses := by
    unfold Consistent glimpses
    simp
  rcases detect_meets_specification hwindow hconsistent earliest (-9) with
    ⟨-, hentries, hfired, hother⟩
  have hkept := (hentries ("source.a", some (.bool true)) (by simp [glimpses])).1
    ⟨some (.bool true), Int64.minValue⟩ rfl rfl
  have hfresh := (hentries ("source.b", none) (by simp [glimpses])).2 (by rintro old ⟨⟩)
  have hfires := hfired.2 ⟨rfl, .inr ?_⟩
  · have hreversed := hother glimpses.reverse fun o => List.mem_reverse
    refine ⟨hwindow, hconsistent, hfires, hreversed.1.trans hfires, ?_⟩
    rw [hreversed.2]
    exact hkept
  · intro path hpath
    simp only [glimpses, List.map_cons, List.map_nil, List.mem_cons, List.not_mem_nil,
      or_false] at hpath
    rcases hpath with rfl | rfl | rfl
    · exact ⟨_, hkept, by decide⟩
    · exact ⟨_, hfresh, by decide⟩
    · exact ⟨_, hkept, by decide⟩

end Detection

end TriggerGraph
