import TriggerGraph.Proofs.Change.Detection

/-!
# Policies that ask for less

Two detections look at the same observations.  When the one takes for a hit whatever the
other takes for one, and is content with as few hits, it fires whenever the other fires.
A wider window takes in more entries, also where its start is cut off at the ends of the
range of times; a window that is not negative takes in every path that changed just now;
and some path is less to ask for than every path.

A path wired twice must show one value: the entry that counts within a window is the last
one made for a path, and it may be old although another observation of the path changed.

Main results:

- Theorem `AsksNoMore.fires`: a detection that asks for no more fires whenever the other does.
- Theorems `isRecent_mono` and `isHit_of_changed`: what a wider window, and any window,
  takes in.
- Theorem `policies_are_ordered`: how modes and windows compare.
-/

namespace TriggerGraph

namespace Detection

variable {previous : Snapshot} {now : Timestamp} {observed : List Observation}
  {lenient strict : Detection} {narrow wide millis : Int64}

/-! ## Hits and modes -/

/-- More hits are enough where fewer were. -/
theorem enough_countP_mono {mode : DetectionMode} {hit more : Observation → Bool}
    (hmore : ∀ o, hit o = true → more o = true)
    (h : mode.enough (observed.countP hit) observed.length = true) :
    mode.enough (observed.countP more) observed.length = true := by
  rw [enough_countP_iff] at h ⊢
  cases mode with
  | anyPath =>
      rcases h with ⟨o, ho, hhit⟩
      exact ⟨o, ho, hmore o hhit⟩
  | everyPath => exact fun o ho => hmore o (h o ho)

/-- Hits that are enough for some mode hold one, unless nothing is observed. -/
theorem enough_anyPath {mode : DetectionMode} {hit : Observation → Bool}
    (hobserved : observed ≠ [])
    (h : mode.enough (observed.countP hit) observed.length = true) :
    DetectionMode.anyPath.enough (observed.countP hit) observed.length = true := by
  rw [enough_countP_iff] at h ⊢
  cases mode with
  | anyPath => exact h
  | everyPath =>
      rcases List.exists_mem_of_ne_nil observed hobserved with ⟨o, ho⟩
      exact ⟨o, ho, h o ho⟩

/-- A detection asks for no more than another: it is active with it, takes each hit of it
for a hit, and wants every path only if the other does. -/
structure AsksNoMore (lenient strict : Detection) (previous : Snapshot) (now : Timestamp) :
    Prop where
  active : strict.active = true → lenient.active = true
  mode : lenient.mode = strict.mode ∨ lenient.mode = .anyPath
  hit : ∀ o, strict.isHit previous now o = true → lenient.isHit previous now o = true

/-- A detection that asks for no more fires whenever the other does. -/
theorem AsksNoMore.fires (h : AsksNoMore lenient strict previous now)
    (hobserved : Consistent observed)
    (hfired : (strict.detect observed previous now).fired = true) :
    (lenient.detect observed previous now).fired = true := by
  rcases hobserved.exists_live with ⟨live, hlive⟩
  rw [fired_eq strict hlive, Bool.and_eq_true, Bool.or_eq_true] at hfired
  rw [fired_eq lenient hlive, Bool.and_eq_true, Bool.or_eq_true]
  rcases hfired with ⟨hactive, henough⟩
  refine ⟨h.active hactive, ?_⟩
  cases hempty : observed.isEmpty with
  | true => exact .inl rfl
  | false =>
      have hne : observed ≠ [] := by simpa using hempty
      have hhits := enough_countP_mono h.hit (henough.resolve_left (by simp [hempty]))
      right
      rcases h.mode with hmode | hmode
      · rwa [hmode]
      · rw [hmode]
        exact enough_anyPath hne hhits

/-! ## Windows -/

/-- A wider window starts no later. -/
theorem windowStart_anti (now : Timestamp) (h : narrow ≤ wide) :
    windowStart now wide ≤ windowStart now narrow := by
  have hle : narrow.toInt ≤ wide.toInt := Int64.le_iff_toInt_le.1 h
  unfold windowStart
  omega

/-- A wider window takes in whatever a narrower one does. -/
theorem isRecent_mono (h : narrow ≤ wide) {entry : SnapshotEntry}
    (hrecent : isRecent now narrow entry = true) : isRecent now wide entry = true := by
  unfold isRecent at hrecent ⊢
  rw [Bool.and_eq_true, decide_eq_true_eq, decide_eq_true_eq] at hrecent ⊢
  exact ⟨Int.le_trans (windowStart_anti now h) hrecent.1, hrecent.2⟩

/-- A window that is not negative takes in what is dated now. -/
theorem isRecent_now (h : 0 ≤ millis) (value : Option Value) :
    isRecent now millis ⟨value, now⟩ = true := by
  have hmillis : 0 ≤ millis.toInt := Int64.le_iff_toInt_le.1 h
  rw [isRecent_iff hmillis]
  dsimp only
  omega

/-- A changed path is a hit in every window that is not negative. -/
theorem isHit_of_changed (detection : Detection) (h : 0 ≤ millis) {o : Observation}
    (hchanged : isChanged previous o = true) :
    (detection.within millis).isHit previous now o = true := by
  unfold isHit
  rw [entryOf_of_changed now hchanged]
  exact isRecent_now h o.2

/-! ## The order of policies -/

/-- Some path is less to ask for than every path. -/
theorem asksNoMore_anyPath (detection : Detection) (previous : Snapshot) (now : Timestamp) :
    AsksNoMore { detection with mode := .anyPath } { detection with mode := .everyPath }
      previous now where
  active hactive := hactive
  mode := .inr rfl
  hit _ hhit := hhit

/-- A wider window asks for no more than a narrower one. -/
theorem asksNoMore_within (detection : Detection) (h : narrow ≤ wide) (previous : Snapshot)
    (now : Timestamp) :
    AsksNoMore (detection.within wide) (detection.within narrow) previous now where
  active hactive := hactive
  mode := .inl rfl
  hit _ hhit := isRecent_mono h hhit

/-- A window that is not negative asks for no more than changes do. -/
theorem asksNoMore_window (detection : Detection) (h : 0 ≤ millis) (previous : Snapshot)
    (now : Timestamp) :
    AsksNoMore (detection.within millis) { detection with windowEnabled := false }
      previous now where
  active hactive := hactive
  mode := .inl rfl
  hit _ hhit := isHit_of_changed detection h hhit

/-- How policies compare on observations that show one value at each path, whatever is
remembered and whatever the time.  Whenever every path is enough, some path is; whenever a
window fires, every wider one does, for all widths and with starts cut off at the ends of
the range of times; and whenever changes fire, every window that is not negative does. -/
theorem policies_are_ordered (detection : Detection) (h : Consistent observed)
    (previous : Snapshot) (now : Timestamp) :
    let fires := fun d : Detection => (d.detect observed previous now).fired = true
    (fires { detection with mode := .everyPath } →
        fires { detection with mode := .anyPath }) ∧
      (∀ narrow wide : Int64, narrow ≤ wide →
        fires (detection.within narrow) → fires (detection.within wide)) ∧
      ∀ millis : Int64, 0 ≤ millis →
        fires { detection with windowEnabled := false } → fires (detection.within millis) := by
  intro fires
  refine ⟨?_, ?_, ?_⟩
  · exact (asksNoMore_anyPath detection previous now).fires h
  · intro narrow wide hle
    exact (asksNoMore_within detection hle previous now).fires h
  · intro millis hmillis
    exact (asksNoMore_window detection hmillis previous now).fires h

/-- At the earliest time every path is recent in the narrowest window, and so in the widest,
whose start is cut off; and a change fires the narrowest one. -/
theorem policies_on_glimpses :
    Consistent glimpses ∧
      ((allChanged.within 0).detect glimpses earliest Int64.minValue).fired = true ∧
      ((allChanged.within Int64.maxValue).detect glimpses earliest Int64.minValue).fired =
        true ∧
      (anyChange.detect glimpses earliest Int64.minValue).fired = true ∧
      ((anyChange.within 0).detect glimpses earliest Int64.minValue).fired = true := by
  have hconsistent : Consistent glimpses := by
    unfold Consistent glimpses
    simp
  have hevery : ((allChanged.within 0).detect glimpses earliest Int64.minValue).fired = true :=
    rfl
  have hchange : (anyChange.detect glimpses earliest Int64.minValue).fired = true := rfl
  rcases policies_are_ordered allChanged hconsistent earliest Int64.minValue with ⟨-, hwide, -⟩
  rcases policies_are_ordered anyChange hconsistent earliest Int64.minValue with
    ⟨-, -, hwindow⟩
  exact ⟨hconsistent, hevery, hwide 0 Int64.maxValue (by decide) hevery, hchange,
    hwindow 0 (by decide) hchange⟩

/-- Two values at one path: the first changed, but the entry that stays is the old one of
the second, which a window leaves out. -/
example :
    let torn : List Observation := [("source.a", none), ("source.a", some (.bool true))]
    (anyChange.detect torn earliest 0).fired = true ∧
      ((anyChange.within 0).detect torn earliest 0).fired = false :=
  ⟨rfl, rfl⟩

end Detection

end TriggerGraph
