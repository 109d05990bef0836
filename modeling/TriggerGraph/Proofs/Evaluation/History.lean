import Mathlib.Order.Bounds.Basic
import TriggerGraph.Proofs.Evaluation.Remembering

/-!
# Change detection over many passes

A history runs passes one after the other over the same graph.  Each pass gets the
snapshot of the last successful pass before it, and none as long as no pass succeeded;
a pass that fails leaves nothing behind.  One pass only ever sees one earlier entry of a
path, and still the timestamps of its snapshot speak about the whole history: the entry of
a path carries the time of the pass at which its present run of equal values began.

Main results:

- Theorem `steady_concat_iff`: how a run of equal values continues through one more pass.
- Theorem `Coherent.extend`: one more pass keeps every successful pass explained.
- Theorem `explains_run`: what each successful pass of a history remembers, and when its
  detections fire, in terms of the runs of equal values that end with it.
-/

namespace TriggerGraph

/-! ## Histories -/

section AnyEngine

variable [SchemaEngine]

/-- What a pass is run on: the evaluator that runs it, its source data and its time. -/
structure Feed where
  evaluator : Evaluator
  source : Option Document
  now : Timestamp

/-- A pass that was run. -/
structure Trial where
  feed : Feed
  result : Except EvaluationError Outcome

/-- The value that the source of a pass holds at a provider path. -/
def Trial.live (trial : Trial) (path : String) : Option Value :=
  Context.live ⟨trial.feed.source, none⟩ path

/-- The passes run so far and the snapshot that the next one gets. -/
structure History where
  carried : Option Snapshot
  trials : List Trial

namespace History

/-- The history without a pass. -/
def empty : History := ⟨none, []⟩

/-- The next pass of a history. -/
def attempt (graph : Graph) (history : History) (feed : Feed) : Trial :=
  ⟨feed, (feed.evaluator.evaluate graph ⟨feed.source, history.carried⟩ feed.now).1⟩

/-- The history with one more pass; only a successful one leaves its snapshot. -/
def extend (graph : Graph) (history : History) (feed : Feed) : History where
  carried :=
    match (attempt graph history feed).result with
    | .ok outcome => some outcome.snapshot
    | .error _ => history.carried
  trials := history.trials ++ [attempt graph history feed]

/-- The history of passes run on feeds, from no snapshot. -/
def run (graph : Graph) (feeds : List Feed) : History :=
  feeds.foldl (extend graph) empty

@[simp] theorem trials_extend (graph : Graph) (history : History) (feed : Feed) :
    (extend graph history feed).trials = history.trials ++ [attempt graph history feed] :=
  rfl

/-! ## Runs of equal values -/

/-- The pass succeeded. -/
def SucceedsAt (trials : List Trial) (pass : Nat) (trial : Trial) : Prop :=
  trials[pass]? = some trial ∧ ∃ outcome, trial.result = .ok outcome

/-- The time of a pass. -/
def nowAt (trials : List Trial) (pass : Nat) : Option Timestamp :=
  trials[pass]?.map fun trial => trial.feed.now

/-- From a successful pass `first` on, every successful pass up to `last` has the value at
the path that `last` has. -/
structure Steady (trials : List Trial) (path : String) (first last : Nat) : Prop where
  le : first ≤ last
  succeeds : ∃ trial, SucceedsAt trials first trial
  equal : ∀ pass trial, SucceedsAt trials pass trial → first ≤ pass → pass ≤ last →
    ∀ final, trials[last]? = some final →
      Value.equalOption (trial.live path) (final.live path) = true

variable {graph : Graph} {trials : List Trial} {trial prior : Trial} {path : String}
  {first last pass : Nat}

theorem SucceedsAt.lt (h : SucceedsAt trials pass trial) : pass < trials.length :=
  (List.getElem?_eq_some_iff.1 h.1).1

theorem succeedsAt_append_iff {more : List Trial} (hpass : pass < trials.length) :
    SucceedsAt (trials ++ more) pass trial ↔ SucceedsAt trials pass trial := by
  rw [SucceedsAt, SucceedsAt, List.getElem?_append_left hpass]

theorem nowAt_append {more : List Trial} (hpass : pass < trials.length) :
    nowAt (trials ++ more) pass = nowAt trials pass := by
  rw [nowAt, nowAt, List.getElem?_append_left hpass]

theorem eq_of_getElem?_concat (h : (trials ++ [trial])[pass]? = some prior)
    (hpass : ¬ pass < trials.length) : pass = trials.length ∧ prior = trial := by
  have hlt := (List.getElem?_eq_some_iff.1 h).1
  rw [List.length_append, List.length_singleton] at hlt
  have hlength : pass = trials.length := by omega
  rw [hlength, List.getElem?_concat_length] at h
  exact ⟨hlength, (Option.some.inj h).symm⟩

@[simp] theorem nowAt_concat_length :
    nowAt (trials ++ [trial]) trials.length = some trial.feed.now := by
  simp [nowAt]

/-- Later passes do not change the runs that ended before them. -/
theorem steady_append_iff {more : List Trial} (hlast : last < trials.length) :
    Steady (trials ++ more) path first last ↔ Steady trials path first last := by
  constructor
  · intro h
    have hfirst := h.le.trans_lt hlast
    refine ⟨h.le, ?_, ?_⟩
    · rcases h.succeeds with ⟨trial, hsucceeds⟩
      exact ⟨trial, (succeedsAt_append_iff hfirst).1 hsucceeds⟩
    · intro pass trial hsucceeds hfrom hto final hfinal
      refine h.equal pass trial ((succeedsAt_append_iff hsucceeds.lt).2 hsucceeds) hfrom hto
        final ?_
      rwa [List.getElem?_append_left hlast]
  · intro h
    have hfirst := h.le.trans_lt hlast
    refine ⟨h.le, ?_, ?_⟩
    · rcases h.succeeds with ⟨trial, hsucceeds⟩
      exact ⟨trial, (succeedsAt_append_iff hfirst).2 hsucceeds⟩
    · intro pass trial hsucceeds hfrom hto final hfinal
      rw [List.getElem?_append_left hlast] at hfinal
      exact h.equal pass trial ((succeedsAt_append_iff (hto.trans_lt hlast)).1 hsucceeds) hfrom
        hto final hfinal

/-- A successful pass is a run of its own. -/
theorem steady_concat_self (htrial : ∃ outcome, trial.result = .ok outcome) :
    Steady (trials ++ [trial]) path trials.length trials.length := by
  refine ⟨le_rfl, ⟨trial, by simp, htrial⟩, ?_⟩
  intro pass other hother hfrom hto final hfinal
  cases le_antisymm hto hfrom
  cases hother.1.symm.trans hfinal
  exact Value.equalOption_self _

/-- A run goes on through one more successful pass when the last successful pass before it
is part of the run and has the same value. -/
theorem steady_concat_iff (hprior : SucceedsAt trials last prior)
    (hlatest : ∀ later other, last < later → ¬ SucceedsAt trials later other)
    (hfirst : first < trials.length) :
    Steady (trials ++ [trial]) path first trials.length ↔
      Value.equalOption (prior.live path) (trial.live path) = true ∧
        Steady trials path first last := by
  have hend : (trials ++ [trial])[trials.length]? = some trial := by simp
  constructor
  · intro h
    rcases h.succeeds with ⟨start, hstart⟩
    have hle : first ≤ last :=
      not_lt.1 fun hlt => hlatest first start hlt ((succeedsAt_append_iff hfirst).1 hstart)
    have hequal : ∀ pass other, SucceedsAt trials pass other → first ≤ pass →
        Value.equalOption (other.live path) (trial.live path) = true := fun pass other hother
      hfrom => h.equal pass other ((succeedsAt_append_iff hother.lt).2 hother) hfrom
        hother.lt.le trial hend
    have hsame := hequal last prior hprior hle
    refine ⟨hsame, hle, ⟨start, (succeedsAt_append_iff hfirst).1 hstart⟩, ?_⟩
    intro pass other hother hfrom _ final hfinal
    cases hprior.1.symm.trans hfinal
    have hother := hequal pass other hother hfrom
    rw [Value.equalOption_iff] at hother hsame ⊢
    exact hother.trans hsame.symm
  · rintro ⟨hsame, h⟩
    rcases h.succeeds with ⟨start, hstart⟩
    refine ⟨hfirst.le, ⟨start, (succeedsAt_append_iff hfirst).2 hstart⟩, ?_⟩
    intro pass other hother hfrom hto final hfinal
    cases hend.symm.trans hfinal
    rcases hto.lt_or_eq with hlt | rfl
    · rw [succeedsAt_append_iff hlt] at hother
      have hle : pass ≤ last := not_lt.1 fun hlate => hlatest pass other hlate hother
      have hequal := h.equal pass other hother hfrom hle prior hprior.1
      rw [Value.equalOption_iff] at hequal hsame ⊢
      exact hequal.trans hsame
    · cases hother.1.symm.trans hend
      exact Value.equalOption_self _

/-- A run that no earlier pass belongs to begins with its last pass. -/
theorem isLeast_concat_self (htrial : ∃ outcome, trial.result = .ok outcome)
    (h : ∀ first < trials.length, ¬ Steady (trials ++ [trial]) path first trials.length) :
    IsLeast {first | Steady (trials ++ [trial]) path first trials.length} trials.length :=
  ⟨steady_concat_self htrial, fun first hfirst => not_lt.1 fun hlt => h first hlt hfirst⟩

/-- A run that goes on keeps its beginning. -/
theorem isLeast_concat (hprior : SucceedsAt trials last prior)
    (hlatest : ∀ later other, last < later → ¬ SucceedsAt trials later other)
    (hsame : Value.equalOption (prior.live path) (trial.live path) = true)
    (h : IsLeast {first | Steady trials path first last} pass) :
    IsLeast {first | Steady (trials ++ [trial]) path first trials.length} pass := by
  have hpass : pass < trials.length := h.1.le.trans_lt hprior.lt
  refine ⟨(steady_concat_iff hprior hlatest hpass).2 ⟨hsame, h.1⟩, ?_⟩
  intro first hfirst
  by_cases hlt : first < trials.length
  · exact h.2 ((steady_concat_iff hprior hlatest hlt).1 hfirst).2
  · exact hpass.le.trans (not_lt.1 hlt)

/-! ## The next pass -/

/-- The run of equal values at a path that ends with one more pass began at `since`: the
entry that the pass leaves carries the time of that pass, and the path has changed when it
is the pass itself. -/
structure Dates (previous : Snapshot) (trials : List Trial) (trial : Trial) (path : String)
    (since : Nat) : Prop where
  began : IsLeast {first | Steady (trials ++ [trial]) path first trials.length} since
  now : nowAt (trials ++ [trial]) since =
    some (Detection.entryOf previous trial.feed.now (path, trial.live path)).timestamp
  changed : Detection.isChanged previous (path, trial.live path) = true ↔ since = trials.length

variable {previous : Snapshot} {entry : SnapshotEntry} {since : Nat}

/-- A changed path begins a run of its own. -/
theorem dates_of_changed (htrial : ∃ outcome, trial.result = .ok outcome)
    (hchanged : Detection.isChanged previous (path, trial.live path) = true)
    (hnone : ∀ first < trials.length, ¬ Steady (trials ++ [trial]) path first trials.length) :
    Dates previous trials trial path trials.length := by
  refine ⟨isLeast_concat_self htrial hnone, ?_, by simp [hchanged]⟩
  rw [nowAt_concat_length, Detection.entryOf_of_changed trial.feed.now hchanged]

/-- An unchanged path goes on with the run that its entry comes from. -/
theorem dates_of_unchanged (hprior : SucceedsAt trials last prior)
    (hlatest : ∀ later other, last < later → ¬ SucceedsAt trials later other)
    (hbegan : IsLeast {first | Steady trials path first last} since)
    (hnow : nowAt trials since = some entry.timestamp)
    (hold : previous.find? path = some entry)
    (hunchanged : Detection.isChanged previous (path, trial.live path) = false)
    (hsame : Value.equalOption (prior.live path) (trial.live path) = true) :
    Dates previous trials trial path since := by
  have hlt : since < trials.length := hbegan.1.le.trans_lt hprior.lt
  refine ⟨isLeast_concat hprior hlatest hsame hbegan, ?_, by simp [hunchanged, hlt.ne]⟩
  rw [nowAt_append hlt, hnow, Detection.entryOf_of_unchanged trial.feed.now hold hunchanged]

/-! ## Explained passes -/

/-- A path counts as a hit of a pass, given when its run of equal values began: with this
very pass, or with a window at a time that the window holds. -/
def HitSince (detection : Detection) (trials : List Trial) (pass : Nat) (now : Timestamp)
    (first : Nat) : Prop :=
  if detection.windowEnabled then
    ∃ start, nowAt trials first = some start ∧
      now.toInt - detection.windowMillis.toInt ≤ start.toInt ∧ start.toInt ≤ now.toInt
  else first = pass

/-- The outcome of a pass in terms of the passes at which the runs of equal values that end
with it began. -/
structure Explains (graph : Graph) (trials : List Trial) (pass : Nat) (trial : Trial)
    (outcome : Outcome) (since : String → Nat) : Prop where
  began : ∀ path, graph.Watches path →
    IsLeast {first | Steady trials path first pass} (since path)
  remembers : ∀ path, graph.Watches path → ∃ entry,
    outcome.snapshot.find? path = some entry ∧
      Value.equalOption entry.value (trial.live path) = true ∧
      nowAt trials (since path) = some entry.timestamp
  fires : ∀ node ∈ graph.nodes, ∀ detection, node.kind = .config detection →
    detection.active = true →
    (detection.windowEnabled = true → 0 ≤ detection.windowMillis.toInt) →
    graph.watchedBy node ≠ [] → ∃ fired, outcome.result? node.id = some (.bool fired) ∧
      (fired = true ↔ Detection.Enough detection.mode (graph.watchedBy node) fun path =>
          HitSince detection trials pass trial.feed.now (since path))

/-- Later passes do not change what explains an earlier one. -/
theorem Explains.append {outcome : Outcome} {since : String → Nat} {more : List Trial}
    (h : Explains graph trials pass trial outcome since) (hpass : pass < trials.length) :
    Explains graph (trials ++ more) pass trial outcome since := by
  have hnow : ∀ path, graph.Watches path →
      nowAt (trials ++ more) (since path) = nowAt trials (since path) := fun path hpath =>
    nowAt_append ((h.began path hpath).1.le.trans_lt hpass)
  refine ⟨?_, ?_, ?_⟩
  · intro path hpath
    simp only [steady_append_iff hpass]
    exact h.began path hpath
  · intro path hpath
    rw [hnow path hpath]
    exact h.remembers path hpath
  · intro node hnode detection hkind hactive hwindow hwatched
    rcases h.fires node hnode detection hkind hactive hwindow hwatched with
      ⟨fired, hresult, hfired⟩
    refine ⟨fired, hresult, hfired.trans (Detection.enough_congr fun path hpath => ?_)⟩
    rw [HitSince, HitSince, hnow path ⟨node, hnode, hpath⟩]

/-- The snapshot carried along is that of the last successful pass, and every successful
pass is explained. -/
structure Coherent (graph : Graph) (history : History) : Prop where
  idle : history.carried = none → ∀ pass trial, ¬ SucceedsAt history.trials pass trial
  latest : ∀ snapshot, history.carried = some snapshot → ∃ pass trial outcome,
    history.trials[pass]? = some trial ∧ trial.result = .ok outcome ∧
      outcome.snapshot = snapshot ∧
      ∀ later other, pass < later → ¬ SucceedsAt history.trials later other
  explained : ∀ pass trial outcome, history.trials[pass]? = some trial →
    trial.result = .ok outcome → ∃ since, Explains graph history.trials pass trial outcome since

/-- Before the first pass nothing is remembered and nothing needs a reason. -/
theorem coherent_empty : Coherent graph empty := by
  refine ⟨?_, ?_, ?_⟩
  · intro _ pass trial h
    cases h.1
  · intro snapshot h
    cases h
  · intro pass trial outcome h
    cases h

variable {history : History} {feed : Feed} {outcome : Outcome} {error : EvaluationError}
  {nodes : List Node}

/-- A pass that succeeds leaves its snapshot to the next. -/
theorem carried_extend_of_ok (h : (attempt graph history feed).result = .ok outcome) :
    (extend graph history feed).carried = some outcome.snapshot := by
  simp [extend, h]

/-- A pass that fails leaves the snapshot before it. -/
theorem carried_extend_of_error (h : (attempt graph history feed).result = .error error) :
    (extend graph history feed).carried = history.carried := by
  simp [extend, h]

/-- A failed pass is none of those that succeeded. -/
theorem succeedsAt_of_extend_error (herror : (attempt graph history feed).result = .error error)
    (h : SucceedsAt (extend graph history feed).trials pass trial) :
    SucceedsAt history.trials pass trial := by
  rw [trials_extend] at h
  by_cases hlt : pass < history.trials.length
  · exact (succeedsAt_append_iff hlt).1 h
  · rcases eq_of_getElem?_concat h.1 hlt with ⟨-, rfl⟩
    rcases h.2 with ⟨outcome, hok⟩
    cases herror.symm.trans hok

/-- The run of equal values at a watched path that ends with a successful next pass began at
some pass. -/
theorem Coherent.exists_dates (h : Coherent graph history)
    (hok : (attempt graph history feed).result = .ok outcome) (hpath : graph.Watches path) :
    ∃ since, Dates (history.carried.getD Snapshot.empty) history.trials
      (attempt graph history feed) path since := by
  have htrial : ∃ outcome, (attempt graph history feed).result = .ok outcome := ⟨outcome, hok⟩
  cases hcarried : history.carried with
  | none =>
      refine ⟨_, dates_of_changed htrial (by simp [Detection.isChanged]) ?_⟩
      intro first hfirst hsteady
      rcases hsteady.succeeds with ⟨start, hstart⟩
      exact h.idle hcarried first start ((succeedsAt_append_iff hfirst).1 hstart)
  | some snapshot =>
      rcases h.latest snapshot hcarried with ⟨last, prior, before, hlast, hbefore, hsnapshot,
        hlatest⟩
      have hprior : SucceedsAt history.trials last prior := ⟨hlast, before, hbefore⟩
      rcases h.explained last prior before hlast hbefore with ⟨since, hexplains⟩
      rcases hexplains.remembers path hpath with ⟨entry, hentry, hvalue, hnow⟩
      have hold : snapshot.find? path = some entry := by
        rw [← hsnapshot, hentry]
      -- The entry holds the value of the last successful pass, whose run it dates.
      cases hsame : Value.equalOption entry.value ((attempt graph history feed).live path) with
      | true =>
          have hcontinued : Value.equalOption (prior.live path)
              ((attempt graph history feed).live path) = true := by
            rw [Value.equalOption_iff] at hvalue hsame ⊢
            exact hvalue.symm.trans hsame
          exact ⟨since path, dates_of_unchanged hprior hlatest (hexplains.began path hpath) hnow
            hold (by simp [Detection.isChanged, hold, hsame]) hcontinued⟩
      | false =>
          refine ⟨_, dates_of_changed htrial (by simp [Detection.isChanged, hold, hsame]) ?_⟩
          intro first hfirst hsteady
          have hcontinued := ((steady_concat_iff hprior hlatest hfirst).1 hsteady).1
          have hequal : Value.equalOption entry.value
              ((attempt graph history feed).live path) = true := by
            rw [Value.equalOption_iff] at hvalue hcontinued ⊢
            exact hvalue.trans hcontinued
          rw [hsame] at hequal
          cases hequal

/-- A successful next pass is explained. -/
theorem Coherent.explains_attempt (h : Coherent graph history)
    (hbuild : Graph.build nodes = .ok graph) (hcycle : graph.order.hasCycle = false)
    (hfeed : feed.evaluator.Reachable)
    (hok : (attempt graph history feed).result = .ok outcome) :
    ∃ since, Explains graph (history.trials ++ [attempt graph history feed])
      history.trials.length (attempt graph history feed) outcome since := by
  have hsound := hfeed.sound
  have hexists : ∀ path, graph.Watches path → ∃ since, Dates
      (history.carried.getD Snapshot.empty) history.trials (attempt graph history feed) path
        since := fun path hpath => h.exists_dates hok hpath
  choose! since hdates using hexists
  refine ⟨since, fun path hpath => (hdates path hpath).began, ?_, ?_⟩
  · intro path hpath
    exact ⟨_, Evaluator.find?_snapshot_of_watches hbuild hcycle hsound hok hpath,
      Detection.equalOption_entryOf _, (hdates path hpath).now⟩
  · intro node hnode detection hkind hactive hwindow hwatched
    have hmem := hnode
    rw [Graph.nodes_of_build hbuild] at hmem
    rcases Evaluator.exists_fired_of_config hbuild hcycle hsound hok hmem hkind hactive hwatched
      with ⟨fired, hresult, hfired⟩
    refine ⟨fired, hresult, hfired.trans (Detection.enough_congr fun path hpath => ?_)⟩
    have hwatches : graph.Watches path := ⟨node, hnode, hpath⟩
    unfold Detection.isHit HitSince
    cases henabled : detection.windowEnabled with
    | false => exact (hdates path hwatches).changed
    | true =>
        simp only [if_true]
        rw [Detection.isRecent_iff (hwindow henabled), (hdates path hwatches).now]
        constructor
        · intro hrecent
          exact ⟨_, rfl, hrecent⟩
        · rintro ⟨start, hstart, hrecent⟩
          cases hstart
          exact hrecent

/-- Of a history that goes on, every successful pass is explained. -/
theorem Coherent.explained_extend (h : Coherent graph history)
    (hbuild : Graph.build nodes = .ok graph) (hcycle : graph.order.hasCycle = false)
    (hfeed : feed.evaluator.Reachable)
    (htrial : (History.extend graph history feed).trials[pass]? = some trial)
    (hok : trial.result = .ok outcome) :
    ∃ since, Explains graph (History.extend graph history feed).trials pass trial outcome
      since := by
  rw [trials_extend] at htrial ⊢
  by_cases hlt : pass < history.trials.length
  · rw [List.getElem?_append_left hlt] at htrial
    rcases h.explained pass trial outcome htrial hok with ⟨since, hexplains⟩
    exact ⟨since, hexplains.append hlt⟩
  · rcases eq_of_getElem?_concat htrial hlt with ⟨rfl, rfl⟩
    exact h.explains_attempt hbuild hcycle hfeed hok

/-- One more pass keeps every successful pass explained. -/
theorem Coherent.extend (h : Coherent graph history) (hbuild : Graph.build nodes = .ok graph)
    (hcycle : graph.order.hasCycle = false) (hfeed : feed.evaluator.Reachable) :
    Coherent graph (History.extend graph history feed) := by
  have hexplained : ∀ pass trial outcome,
      (History.extend graph history feed).trials[pass]? = some trial →
        trial.result = .ok outcome → ∃ since,
          Explains graph (History.extend graph history feed).trials pass trial outcome since :=
    fun _ _ _ => h.explained_extend hbuild hcycle hfeed
  cases hresult : (attempt graph history feed).result with
  | ok outcome =>
      have hcarried := carried_extend_of_ok hresult
      refine ⟨by simp [hcarried], ?_, hexplained⟩
      intro snapshot hsnapshot
      cases hcarried.symm.trans hsnapshot
      refine ⟨history.trials.length, attempt graph history feed, outcome, by simp, hresult, rfl,
        ?_⟩
      intro later other hlater hother
      have hlt := hother.lt
      simp only [trials_extend, List.length_append, List.length_singleton] at hlt
      omega
  | error error =>
      have hcarried := carried_extend_of_error hresult
      refine ⟨?_, ?_, hexplained⟩
      · intro hnone pass trial hsucceeds
        exact h.idle (hcarried.symm.trans hnone) pass trial
          (succeedsAt_of_extend_error hresult hsucceeds)
      · intro snapshot hsnapshot
        rcases h.latest snapshot (hcarried.symm.trans hsnapshot) with
          ⟨pass, trial, outcome, htrial, hok, hleft, hlatest⟩
        refine ⟨pass, trial, outcome, ?_, hok, hleft, ?_⟩
        · rw [trials_extend, List.getElem?_append_left (List.getElem?_eq_some_iff.1 htrial).1]
          exact htrial
        · intro later other hlater hother
          exact hlatest later other hlater (succeedsAt_of_extend_error hresult hother)

/-- A history stays coherent over any feeds. -/
theorem coherent_foldl {feeds : List Feed} (h : Coherent graph history)
    (hbuild : Graph.build nodes = .ok graph) (hcycle : graph.order.hasCycle = false)
    (hfeeds : ∀ feed ∈ feeds, feed.evaluator.Reachable) :
    Coherent graph (feeds.foldl (History.extend graph) history) := by
  induction feeds generalizing history with
  | nil => exact h
  | cons feed rest ih =>
      have hnext := h.extend hbuild hcycle (hfeeds feed List.mem_cons_self)
      exact ih hnext fun other hother => hfeeds other (List.mem_cons_of_mem feed hother)

/-- Every successful pass of a history of passes over an acyclic graph is explained: its
snapshot holds at each watched path the live value and the time at which the run of equal
values that ends with the pass began, and its active detections fire on the paths whose
runs began with the pass itself, or within their window. -/
theorem explains_run (hbuild : Graph.build nodes = .ok graph)
    (hcycle : graph.order.hasCycle = false) {feeds : List Feed}
    (hfeeds : ∀ feed ∈ feeds, feed.evaluator.Reachable)
    (htrial : (run graph feeds).trials[pass]? = some trial) (hok : trial.result = .ok outcome) :
    ∃ since, Explains graph (run graph feeds).trials pass trial outcome since :=
  (coherent_foldl coherent_empty hbuild hcycle hfeeds).explained pass trial outcome htrial hok

end History

end AnyEngine

namespace History

/-- A detection with a window of ten milliseconds over one provider. -/
def sentry : List Node :=
  [.final 3 (some 2), .config 2 (Detection.anyChange.within 10) [1], .provider 1 "source.armed"]

/-- The sentry with its inputs resolved and its order. -/
def sentryGraph : Graph :=
  ⟨sentry, [(1, 2), (2, 1), (3, 0)], [[1], [2], []], ⟨[2, 1, 0], false, []⟩⟩

section BooleanSchemas

attribute [local instance] SchemaEngine.booleans

/-- The same value before and after a pass that fails for want of a source. -/
def sentryFeeds : List Feed :=
  [⟨.fresh, some (.object [("armed", .bool true)]), 5⟩, ⟨.fresh, none, 6⟩,
    ⟨.fresh, some (.object [("armed", .bool true)]), 12⟩]

/-- The third pass of the sentry is explained. -/
theorem explains_last_of_sentry :
    ∃ trial outcome since, (run sentryGraph sentryFeeds).trials[2]? = some trial ∧
      trial.result = .ok outcome ∧
      Explains sentryGraph (run sentryGraph sentryFeeds).trials 2 trial outcome since := by
  have hbuild : Graph.build sentry = .ok sentryGraph := by rfl
  have hcycle : sentryGraph.order.hasCycle = false := by rfl
  have hfresh : Evaluator.fresh.Reachable := .made SchemaCache.defaultCapacity fun _ => 0
  have hfeeds : ∀ feed ∈ sentryFeeds, feed.evaluator.Reachable := by
    simp [sentryFeeds, hfresh]
  have hverdict : ((run sentryGraph sentryFeeds).trials[2]?.map fun trial =>
      trial.result.map Outcome.verdict) = some (.ok true) := by rfl
  rcases Option.map_eq_some_iff.1 hverdict with ⟨trial, htrial, hok⟩
  cases hresult : trial.result with
  | error error =>
      rw [hresult] at hok
      cases hok
  | ok outcome =>
      rcases explains_run hbuild hcycle hfeeds htrial hresult with ⟨since, hexplains⟩
      exact ⟨trial, outcome, since, htrial, hresult, hexplains⟩

end BooleanSchemas

end History

end TriggerGraph
