import TriggerGraph.Proofs.Evaluation.Masking
import TriggerGraph.Proofs.Evaluation.Remembering
import TriggerGraph.Proofs.Graph.Retuning

/-!
# The snapshot of a pass

The nodes that detect changes write into one snapshot, later ones over earlier ones.  Nothing
is ever lost in that: an entry is determined by its path, so two nodes that leave an entry at
one path leave the same.  Which nodes come first is therefore of no account, and neither are
the settings of the nodes, which only decide whether they fire.

Main results:

- Theorem `Evaluator.find?_contribution_iff`: which entries a single node leaves.
- Theorem `Evaluator.merged_contribution`: the snapshot of a successful evaluation is what
  they leave, put together in any order.
- Theorem `Evaluator.exists_progress_of_orders`: nodes can be visited in another order.
- Theorem `Evaluator.snapshot_of_watched_paths`: all that can be said of the snapshot.
-/

namespace TriggerGraph

/-! ## Entries -/

/-- The entry that is left of a value: the one from before if it holds an equal value, and
else a fresh one with the value and the time of the pass. -/
def SnapshotEntry.Follows (before : Option SnapshotEntry) (now : Timestamp)
    (live : Option Value) (entry : SnapshotEntry) : Prop :=
  (∃ old, before = some old ∧ Value.equalOption old.value live = true ∧ entry = old) ∨
    ((∀ old, before = some old → Value.equalOption old.value live = false) ∧
      entry = ⟨live, now⟩)

/-- The entry of an observation follows from what was remembered. -/
theorem Detection.follows_entryOf (previous : Snapshot) (now : Timestamp)
    (observed : Observation) :
    SnapshotEntry.Follows (previous.find? observed.1) now observed.2
      (entryOf previous now observed) := by
  unfold SnapshotEntry.Follows entryOf
  cases hold : previous.find? observed.1 with
  | none => simp
  | some old => cases hequal : Value.equalOption old.value observed.2 <;> simp [hequal]

namespace Graph

/-! ## Watched paths -/

variable {nodes : List Node} {graph : Graph} {config provider : Node} {path : String}
  {settings : NodeId → Detection → Detection}

/-- A detection node watches the paths of the providers wired to it. -/
theorem mem_watchedBy_iff (hbuild : build nodes = .ok graph) :
    path ∈ graph.watchedBy config ↔ config.isConfig = true ∧
      ∃ provider ∈ nodes, provider.id ∈ config.inputs ∧ provider.kind = .provider path := by
  unfold watchedBy
  split
  · rename_i hconfig
    simp only [hconfig, true_and, List.mem_filterMap, Option.bind_eq_some_iff,
      Node.providerPath?_eq_some_iff]
    constructor
    · rintro ⟨input, hinput, provider, hnode, hkind⟩
      rcases (node?_eq_some_iff hbuild).1 hnode with ⟨hmem, rfl⟩
      exact ⟨provider, hmem, hinput, hkind⟩
    · rintro ⟨provider, hmem, hinput, hkind⟩
      exact ⟨provider.id, hinput, provider, (node?_eq_some_iff hbuild).2 ⟨hmem, rfl⟩, hkind⟩
  · rename_i hconfig
    simp [hconfig]

/-- Other settings leave the watched paths alone. -/
theorem watchedBy_retuned (node : Node) :
    (graph.retuned settings).watchedBy (node.retuned settings) = graph.watchedBy node := by
  have hinput : ∀ input, ((graph.retuned settings).node? input).bind Node.providerPath? =
      (graph.node? input).bind Node.providerPath? := by
    intro input
    rw [node?_retuned]
    cases graph.node? input with
    | none => rfl
    | some source => exact Node.providerPath?_retuned
  unfold watchedBy
  rw [Node.isConfig_retuned, Node.retuned_inputs, funext hinput]

/-- The same paths are watched under other settings. -/
theorem watches_retuned_iff : (graph.retuned settings).Watches path ↔ graph.Watches path := by
  constructor
  · rintro ⟨node, hnode, hpath⟩
    rcases List.mem_map.1 hnode with ⟨original, horiginal, rfl⟩
    rw [watchedBy_retuned] at hpath
    exact ⟨original, horiginal, hpath⟩
  · rintro ⟨node, hnode, hpath⟩
    refine ⟨node.retuned settings, List.mem_map_of_mem hnode, ?_⟩
    rw [watchedBy_retuned]
    exact hpath

/-- A graph with other settings differs from the graph in settings alone. -/
theorem retunes_retuned (graph : Graph) (settings : NodeId → Detection → Detection) :
    graph.Retunes (graph.retuned settings) := by
  intro id
  rw [node?_retuned]
  cases graph.node? id with
  | none => rfl
  | some node => exact congrArg some Node.untuned_retuned.symm

/-! ## What single nodes leave -/

/-- What a node observes by the results of a pass: the paths of the providers wired to it
with their results. -/
def observed (graph : Graph) (outcome : Outcome) (node : Node) : List Detection.Observation :=
  node.inputs.filterMap fun input => (graph.node? input).bind fun source =>
    source.providerPath?.map fun path => (path, outcome.result? input)

/-- The snapshot that a node leaves by the results of a pass. -/
def contribution (graph : Graph) (context : Context) (now : Timestamp) (outcome : Outcome)
    (node : Node) : Snapshot :=
  match node.kind with
  | .config detection =>
    (detection.detect (graph.observed outcome node) context.previous now).snapshot
  | _ => Snapshot.empty

end Graph

namespace Evaluator

open TriggerGraph.Graph

section AnyEngine

variable [SchemaEngine] {nodes : List Node} {graph : Graph} {evaluator : Evaluator}
  {context : Context} {now : Timestamp} {outcome : Outcome} {path : String} {entry : SnapshotEntry}

section Succeeded

variable (hbuild : build nodes = .ok graph) (hcycle : graph.order.hasCycle = false)
  (hsound : evaluator.schemas.Sound)
  (h : (evaluator.evaluate graph context now).1 = .ok outcome)

include hbuild hcycle hsound h

/-- A provider results in what the source holds at its path. -/
theorem result?_of_provider {input : NodeId} {provider : Node}
    (hnode : graph.node? input = some provider)
    (hpath : provider.providerPath? = some path) : outcome.result? input = context.live path :=
  reading_of_provider hnode hpath
    (reading_of_evaluate hbuild hcycle (wellFounded_reads hbuild hcycle) hsound h input)

/-- What a detection node observes are the values at the paths that it watches. -/
theorem observed_eq {config : Node} (hconfig : config.isConfig = true) :
    graph.observed outcome config =
      (graph.watchedBy config).map fun path => (path, context.live path) := by
  unfold observed watchedBy
  rw [if_pos hconfig, List.map_filterMap]
  refine List.filterMap_congr fun input _ => ?_
  cases hnode : graph.node? input with
  | none => rfl
  | some source =>
      cases hpath : source.providerPath? with
      | none => simp [hpath]
      | some path => simp [hpath, result?_of_provider hbuild hcycle hsound h hnode hpath]

/-- A node leaves an entry at each path that it watches; the path determines which. -/
theorem find?_contribution_iff (node : Node) :
    (graph.contribution context now outcome node).find? path = some entry ↔
      path ∈ graph.watchedBy node ∧
        entry = Detection.entryOf context.previous now (path, context.live path) := by
  cases hconfig : node.isConfig with
  | false =>
      have hempty : graph.contribution context now outcome node = Snapshot.empty := by
        unfold Node.isConfig at hconfig
        unfold contribution
        split
        · rename_i detection hkind
          rw [hkind] at hconfig
          cases hconfig
        · rfl
      simp [hempty, watchedBy, hconfig]
  | true =>
      have hobserved := observed_eq hbuild hcycle hsound h hconfig
      have hpaths : (graph.observed outcome node).map Prod.fst = graph.watchedBy node := by
        rw [hobserved]
        simp [Function.comp_def]
      have hlive : ∀ o ∈ graph.observed outcome node, o.2 = context.live o.1 := by
        rw [hobserved]
        simp
      have hnext : graph.contribution context now outcome node =
          Detection.nextSnapshot context.previous now (graph.observed outcome node) := by
        rcases Node.exists_detection_of_isConfig hconfig with ⟨detection, hkind⟩
        rw [contribution, hkind]
        rfl
      rw [hnext, ← hpaths]
      by_cases hpath : path ∈ (graph.observed outcome node).map Prod.fst
      · rw [Detection.find?_nextSnapshot hlive hpath, Option.some.injEq]
        exact ⟨fun heq => ⟨hpath, heq.symm⟩, fun heq => heq.2.symm⟩
      · rw [Detection.find?_nextSnapshot_of_notMem hpath]
        simp [hpath]

/-! ## The order of the nodes -/

/-- The snapshot of a successful evaluation is what the single nodes leave, put together in
any order. -/
theorem merged_contribution {configs : List Node}
    (hconfigs : configs.Perm (nodes.filter Node.isConfig)) :
    Snapshot.merged (configs.map (graph.contribution context now outcome)) =
      outcome.snapshot := by
  have hleft : ∀ node path entry,
      (graph.contribution context now outcome node).find? path = some entry ↔
        path ∈ graph.watchedBy node ∧
          entry = Detection.entryOf context.previous now (path, context.live path) :=
    fun node path entry => find?_contribution_iff hbuild hcycle hsound h node
  refine Snapshot.ext_find? fun path => Option.ext fun entry => ?_
  rw [Snapshot.find?_merged_iff, find?_snapshot_iff hbuild hcycle hsound h]
  · constructor
    · rintro ⟨s, hs, hentry⟩
      rcases List.mem_map.1 hs with ⟨node, hnode, rfl⟩
      rcases (hleft node path entry).1 hentry with ⟨hpath, heq⟩
      have hmem := (List.mem_filter.1 (hconfigs.mem_iff.1 hnode)).1
      rw [← nodes_of_build hbuild] at hmem
      exact ⟨⟨node, hmem, hpath⟩, heq⟩
    · rintro ⟨⟨node, hnode, hpath⟩, heq⟩
      rw [nodes_of_build hbuild] at hnode
      have hconfig := ((mem_watchedBy_iff hbuild).1 hpath).1
      have hmem := hconfigs.mem_iff.2 (List.mem_filter.2 ⟨hnode, hconfig⟩)
      exact ⟨_, List.mem_map_of_mem hmem, (hleft node path entry).2 ⟨hpath, heq⟩⟩
  · intro s hs t ht found other hfound hother
    rcases List.mem_map.1 hs with ⟨left, -, rfl⟩
    rcases List.mem_map.1 ht with ⟨right, -, rfl⟩
    rw [((hleft left path found).1 hfound).2, ((hleft right path other).1 hother).2]

/-- Visiting the slots in any other order, each after those that feed it, succeeds as well and
leaves the same snapshot. -/
theorem exists_progress_of_orders {slots : List Nat}
    (hslots : TopologicalOrder.Orders nodes slots) :
    ∃ progress, (Pass.runSlots ⟨graph, context, now⟩ slots (Progress.start graph.size)
        evaluator.schemas).1 = .ok progress ∧ progress.snapshot = outcome.snapshot := by
  have hreads := wellFounded_reads hbuild hcycle
  have hsettles : Pass.Settles ⟨graph, context, now⟩ hreads _ _ :=
    Pass.settles_of_orders hreads hbuild hslots hsound
  cases hrun : (Pass.runSlots ⟨graph, context, now⟩ slots (Progress.start graph.size)
      evaluator.schemas).1 with
  | error error =>
      rw [hrun] at hsettles
      rcases hsettles with ⟨slot, -, node, hnode, hfails⟩
      rw [nodes_of_build hbuild] at hnode
      have herror := reading_of_fails hbuild (List.mem_of_getElem? hnode) hfails
      have hvalue := reading_of_evaluate hbuild hcycle hreads hsound h node.id
      cases hvalue.symm.trans herror
  | ok progress =>
      have hremembers : Pass.Remembers ⟨graph, context, now⟩ progress slots :=
        Pass.remembers_of_orders hreads hbuild hslots hsound hrun
      have hall : ∀ slot < nodes.length, slot ∈ slots := fun slot => (hslots.mem_iff slot).2
      refine ⟨progress, rfl, Snapshot.ext_find? fun path => Option.ext fun entry => ?_⟩
      rw [hremembers.find?_iff hbuild hall, find?_snapshot_iff hbuild hcycle hsound h]
      rfl

/-! ## Other settings -/

/-- Under other settings a pass that succeeded succeeds as well, and leaves the same
snapshot. -/
theorem exists_outcome_of_settings (settings : NodeId → Detection → Detection) :
    ∃ found, (evaluator.evaluate (graph.retuned settings) context now).1 = .ok found ∧
      found.snapshot = outcome.snapshot := by
  have hother := build_retuned hbuild settings
  have hok : ∃ found, (evaluator.evaluate (graph.retuned settings) context now).1 = .ok found :=
    exists_outcome_of_retuned hbuild hcycle hsound hother hcycle hsound
      (retunes_retuned graph settings) rfl h
  rcases hok with ⟨found, hfound⟩
  refine ⟨found, hfound, Snapshot.ext_find? fun path => Option.ext fun entry => ?_⟩
  rw [find?_snapshot_iff hother hcycle hsound hfound, find?_snapshot_iff hbuild hcycle hsound h,
    watches_retuned_iff]

end Succeeded

/-! ## The snapshot as a whole -/

/-- What the snapshot of a successful pass consists of. -/
structure SnapshotOfPass (nodes : List Node) (graph : Graph) (evaluator : Evaluator)
    (context : Context) (now : Timestamp) (outcome : Outcome) : Prop where
  /-- Its paths are those of the providers wired to a node that detects changes. -/
  paths : ∀ path, path ∈ outcome.snapshot.paths ↔
    ∃ config ∈ nodes, config.isConfig = true ∧
      ∃ provider ∈ nodes, provider.id ∈ config.inputs ∧ provider.kind = .provider path
  /-- All providers of a path find the same value, which is what its entry is left of. -/
  entries : ∀ provider ∈ nodes, ∀ path, provider.kind = .provider path →
    outcome.result? provider.id = context.live path ∧
      ∀ entry, outcome.snapshot.find? path = some entry →
        entry.Follows (context.previous.find? path) now (outcome.result? provider.id)
  /-- Two nodes that leave an entry at one path leave the same. -/
  agree : ∀ left ∈ nodes, ∀ right ∈ nodes, ∀ path entry other,
    (graph.contribution context now outcome left).find? path = some entry →
      (graph.contribution context now outcome right).find? path = some other → entry = other
  /-- It is what the single nodes leave, put together in any order. -/
  merged : ∀ configs : List Node, configs.Perm (nodes.filter Node.isConfig) →
    Snapshot.merged (configs.map (graph.contribution context now outcome)) = outcome.snapshot
  /-- It is left in whatever order the nodes are visited. -/
  ordered : ∀ slots, TopologicalOrder.Orders nodes slots → ∃ progress,
    (Pass.runSlots ⟨graph, context, now⟩ slots (Progress.start graph.size)
        evaluator.schemas).1 = .ok progress ∧ progress.snapshot = outcome.snapshot
  /-- It is left under whatever settings of change detection. -/
  settings : ∀ settings : NodeId → Detection → Detection,
    build (nodes.map (Node.retuned settings)) = .ok (graph.retuned settings) ∧
      ∃ found, (evaluator.evaluate (graph.retuned settings) context now).1 = .ok found ∧
        found.snapshot = outcome.snapshot

/-- The snapshot of a successful evaluation holds exactly the paths watched for changes, each
with its entry from before if that has the value found now and else with a fresh one.
Neither the order of the nodes nor their settings have any part in it. -/
theorem snapshot_of_watched_paths (hbuild : build nodes = .ok graph)
    (hcycle : graph.order.hasCycle = false) (hreachable : evaluator.Reachable)
    (h : (evaluator.evaluate graph context now).1 = .ok outcome) :
    SnapshotOfPass nodes graph evaluator context now outcome := by
  have hsound := hreachable.sound
  refine ⟨?_, ?_, ?_, ?_, ?_, ?_⟩
  · intro path
    rw [Snapshot.mem_paths_iff]
    simp only [find?_snapshot_iff hbuild hcycle hsound h, exists_and_left, exists_eq, and_true]
    unfold Watches
    simp only [nodes_of_build hbuild, mem_watchedBy_iff hbuild]
  · intro provider hprovider path hkind
    have hnode := (node?_eq_some_iff hbuild).2 ⟨hprovider, rfl⟩
    have hpath : provider.providerPath? = some path := Node.providerPath?_eq_some_iff.2 hkind
    have hlive := result?_of_provider hbuild hcycle hsound h hnode hpath
    refine ⟨hlive, fun entry hentry => ?_⟩
    rw [((find?_snapshot_iff hbuild hcycle hsound h).1 hentry).2, hlive]
    exact Detection.follows_entryOf context.previous now (path, context.live path)
  · intro left _ right _ path entry other hentry hother
    rw [((find?_contribution_iff hbuild hcycle hsound h left).1 hentry).2,
      ((find?_contribution_iff hbuild hcycle hsound h right).1 hother).2]
  · exact fun configs hconfigs => merged_contribution hbuild hcycle hsound h hconfigs
  · exact fun slots hslots => exists_progress_of_orders hbuild hcycle hsound h hslots
  · exact fun settings =>
      ⟨build_retuned hbuild settings, exists_outcome_of_settings hbuild hcycle hsound h settings⟩

end AnyEngine

/-- Two detections, one of them inactive, over two providers of one path and one of another. -/
def ledger : List Node :=
  [.final 6 (some 5), .config 5 Detection.allChanged [1, 3, 1],
    .config 4 Detection.anyChange.inactive [2], .provider 3 "source.name",
    .provider 2 "source.total", .provider 1 "source.total"]

/-- The ledger with its inputs resolved and its order. -/
def ledgerGraph : Graph :=
  ⟨ledger, [(1, 5), (2, 4), (3, 3), (4, 2), (5, 1), (6, 0)],
    [[1], [5, 3, 5], [4], [], [], []], ⟨[3, 4, 5, 2, 1, 0], false, []⟩⟩

/-- A total of zero, remembered with the other sign, and a name that is new. -/
def ledgerContext : Context :=
  ⟨some (.object [("name", .string "a"), ("total", .number (.float .zero))]),
    some (.ofList [("source.total", ⟨some (.number (.float .negZero)), 2⟩)])⟩

section BooleanSchemas

attribute [local instance] SchemaEngine.booleans

/-- The pass over the ledger succeeds and leaves the snapshot described. -/
theorem snapshot_of_ledger :
    ∃ outcome, (fresh.evaluate ledgerGraph ledgerContext 7).1 = .ok outcome ∧
      SnapshotOfPass ledger ledgerGraph fresh ledgerContext 7 outcome := by
  have hbuild : build ledger = .ok ledgerGraph := by rfl
  have hcycle : ledgerGraph.order.hasCycle = false := by rfl
  have hfresh : fresh.Reachable := .made SchemaCache.defaultCapacity fun _ => 0
  have hverdict : fresh.verdict ledgerGraph ledgerContext 7 = .ok false := by rfl
  rcases exists_outcome_of_verdict hverdict with ⟨outcome, houtcome, -⟩
  exact ⟨outcome, houtcome, snapshot_of_watched_paths hbuild hcycle hfresh houtcome⟩

end BooleanSchemas

end Evaluator

end TriggerGraph
