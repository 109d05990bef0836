import TriggerGraph.Proofs.Change.Detection
import TriggerGraph.Proofs.Evaluation.Agreement

/-!
# What a pass remembers

Each node that detects changes leaves entries for the paths of the providers wired to
it, and the pass puts the entries of all of them into one snapshot.  All providers of a
path read the same source, so the entry of a path is the same whichever node leaves it:
the entry of the snapshot before, if its value has not changed, and else the value found
now with the time of the pass.

Main results:

- Theorem `Graph.observations_of_wired`: what a node observes is what the source holds at
  the paths it watches.
- Theorem `Pass.remembers_run`: a finished pass remembers the watched paths and no others.
- Theorems `Evaluator.find?_snapshot_iff` and `Evaluator.exists_fired_of_config`: the
  snapshot and the decisions of a successful evaluation, said by paths alone.
-/

namespace TriggerGraph

/-- The value that the source of a context holds at a provider path. -/
def Context.live (context : Context) (path : String) : Option Value :=
  context.source.bind fun source => source.extract? (Path.relativeToSource path)

namespace Graph

/-! ## Watched paths -/

/-- The paths that a node watches: those of the providers wired to it, if it detects
changes, in wiring order. -/
def watchedBy (graph : Graph) (node : Node) : List String :=
  if node.isConfig then
    node.inputs.filterMap fun input => (graph.node? input).bind Node.providerPath?
  else []

/-- Some node watches the path. -/
def Watches (graph : Graph) (path : String) : Prop :=
  ∃ node ∈ graph.nodes, path ∈ graph.watchedBy node

variable {graph : Graph} {context : Context} {now : Timestamp}
  {hreads : WellFounded graph.Reads} {node : Node} {entries : List (Node × Option Value)}

variable [SchemaEngine]

/-- A provider has the value that the source holds at its path. -/
theorem reading_of_provider {id : NodeId} {provider : Node}
    (hnode : graph.node? id = some provider) {path : String}
    (hpath : provider.providerPath? = some path) {value : Option Value}
    (h : graph.reading context now hreads id = .ok value) : value = context.live path := by
  rcases exists_values_of_reading_eq_ok hnode h with ⟨values, -, hmeaning⟩
  unfold Node.meaning at hmeaning
  rw [Node.providerPath?_eq_some_iff.1 hpath] at hmeaning
  unfold Context.live
  dsimp only at hmeaning
  split at hmeaning
  · cases hmeaning
  · rename_i members hsource
    cases hmeaning
    rw [hsource, Option.bind_some]
  · cases hmeaning

/-- What a node observes is what the source holds at the paths it watches. -/
theorem observations_of_wired (hwired : graph.Wired context now hreads node entries)
    (hconfig : node.isConfig = true) :
    Pass.observations entries =
      (graph.watchedBy node).map fun path => (path, context.live path) := by
  unfold Wired at hwired
  rw [watchedBy, if_pos hconfig, Pass.observations]
  generalize node.inputs = inputs at hwired
  induction hwired with
  | nil => rfl
  | @cons input entry inputs entries hentry _ ih =>
      rcases hentry with ⟨hnode, hvalue⟩
      cases hpath : entry.1.providerPath? with
      | none => simp [hnode, hpath, ih]
      | some path =>
          have hlive := reading_of_provider hnode hpath hvalue
          simp [hnode, hpath, ih, hlive]

end Graph

namespace Pass

/-! ## Along the order -/

variable {pass : Pass} {nodes : List Node} {progress : Progress} {done : List Nat}

/-- The entry that the pass leaves at a path. -/
def entryAt (pass : Pass) (path : String) : SnapshotEntry :=
  Detection.entryOf pass.context.previous pass.now (path, pass.context.live path)

/-- A node leaves the entries of the paths it watches and no others. -/
def Leaves (pass : Pass) (node : Node) (remembered : Snapshot) : Prop :=
  (∀ path ∈ pass.graph.watchedBy node, remembered.find? path = some (pass.entryAt path)) ∧
    ∀ path, path ∉ pass.graph.watchedBy node → remembered.find? path = none

/-- What is remembered so far are the entries of the paths watched at the given slots. -/
structure Remembers (pass : Pass) (progress : Progress) (done : List Nat) : Prop where
  watched : ∀ slot ∈ done, ∀ node, pass.graph.nodes[slot]? = some node →
    ∀ path ∈ pass.graph.watchedBy node, progress.snapshot.find? path = some (pass.entryAt path)
  only : ∀ path entry, progress.snapshot.find? path = some entry →
    ∃ slot ∈ done, ∃ node, pass.graph.nodes[slot]? = some node ∧
      path ∈ pass.graph.watchedBy node

theorem leaves_empty {node : Node} (h : node.isConfig = false) :
    pass.Leaves node Snapshot.empty := by
  unfold Leaves Graph.watchedBy
  simp [h]

/-- When all slots are done, the entries are those of the watched paths. -/
theorem Remembers.find?_iff (hbuild : Graph.build nodes = .ok pass.graph)
    (h : pass.Remembers progress done) (hall : ∀ slot < nodes.length, slot ∈ done)
    {path : String} {entry : SnapshotEntry} :
    progress.snapshot.find? path = some entry ↔
      pass.graph.Watches path ∧ entry = pass.entryAt path := by
  have hwatched : pass.graph.Watches path →
      progress.snapshot.find? path = some (pass.entryAt path) := by
    rintro ⟨node, hnode, hpath⟩
    rcases List.mem_iff_getElem?.1 hnode with ⟨slot, hslot⟩
    have hlt := (List.getElem?_eq_some_iff.1 hslot).1
    rw [Graph.nodes_of_build hbuild] at hlt
    exact h.watched slot (hall slot hlt) node hslot path hpath
  constructor
  · intro hentry
    rcases h.only path entry hentry with ⟨slot, -, node, hslot, hpath⟩
    have hwatches : pass.graph.Watches path := ⟨node, List.mem_of_getElem? hslot, hpath⟩
    exact ⟨hwatches, Option.some.inj (hentry.symm.trans (hwatched hwatches))⟩
  · rintro ⟨hwatches, rfl⟩
    exact hwatched hwatches

/-- Before the first slot nothing is remembered. -/
theorem remembers_start (pass : Pass) : pass.Remembers (Progress.start pass.graph.size) [] := by
  constructor
  · intro slot hslot
    cases hslot
  · intro path entry hentry
    cases hentry

/-- Recording what one more slot leaves keeps what is remembered. -/
theorem Remembers.record (h : pass.Remembers progress done) {slot : Nat} {node : Node}
    (hnode : pass.graph.nodes[slot]? = some node) {y : Yield}
    (hleaves : pass.Leaves node y.remembered) :
    pass.Remembers (progress.record slot y) (done ++ [slot]) := by
  constructor
  · intro other hother otherNode hotherNode path hpath
    rw [Progress.record, Snapshot.find?_union]
    by_cases hwatched : path ∈ pass.graph.watchedBy node
    · rw [hleaves.1 path hwatched, Option.some_or]
    · rw [hleaves.2 path hwatched, Option.none_or]
      rcases List.mem_append.1 hother with hdone | hlast
      · exact h.watched other hdone otherNode hotherNode path hpath
      · rw [List.mem_singleton] at hlast
        subst hlast
        cases hnode.symm.trans hotherNode
        exact absurd hpath hwatched
  · intro path entry hentry
    rw [Progress.record, Snapshot.find?_union] at hentry
    by_cases hwatched : path ∈ pass.graph.watchedBy node
    · exact ⟨slot, by simp, node, hnode, hwatched⟩
    · rw [hleaves.2 path hwatched, Option.none_or] at hentry
      rcases h.only path entry hentry with ⟨other, hdone, hother⟩
      exact ⟨other, List.mem_append_left _ hdone, hother⟩

/-- What comes with nothing to remember leaves nothing. -/
theorem remembered_of_map {α : Type} {result : Except EvaluationError α} {yield : α → Yield}
    (hyield : ∀ value, (yield value).remembered = Snapshot.empty) {y : Yield}
    (h : result.map yield = .ok y) : y.remembered = Snapshot.empty := by
  cases result with
  | error error => cases h
  | ok value =>
      cases h
      exact hyield value

variable [SchemaEngine] {cache : SchemaCache} {hreads : WellFounded pass.graph.Reads}

/-- Only a change detection has anything to remember. -/
theorem remembered_of_calculate {node : Node} (hconfig : node.isConfig = false)
    {entries : List (Node × Option Value)} {y : Yield}
    (h : (pass.calculate node entries cache).1 = .ok y) : y.remembered = Snapshot.empty := by
  cases hkind : node.kind with
  | config detection =>
      rw [Node.isConfig, hkind] at hconfig
      cases hconfig
  | constant value =>
      rw [calculate, hkind] at h
      cases h
      rfl
  | schema text =>
      rw [calculate, hkind] at h
      cases h
      rfl
  | provider path =>
      rw [calculate, hkind] at h
      exact remembered_of_map (fun _ => rfl) h
  | logic operator =>
      rw [calculate, hkind] at h
      exact remembered_of_map (fun _ => rfl) h
  | final =>
      rw [calculate, hkind] at h
      exact remembered_of_map (fun _ => rfl) h

/-- A calculated node leaves the entries of the paths it watches. -/
theorem leaves_of_calculate {node : Node} {entries : List (Node × Option Value)}
    (hwired : pass.graph.Wired pass.context pass.now hreads node entries) {y : Yield}
    (h : (pass.calculate node entries cache).1 = .ok y) : pass.Leaves node y.remembered := by
  cases hconfig : node.isConfig with
  | false =>
      rw [remembered_of_calculate hconfig h]
      exact leaves_empty hconfig
  | true =>
      rcases Node.exists_detection_of_isConfig hconfig with ⟨detection, hkind⟩
      have hobserved := Graph.observations_of_wired hwired hconfig
      have hpaths : (observations entries).map Prod.fst = pass.graph.watchedBy node := by
        rw [hobserved]
        simp [Function.comp_def]
      have hlive : ∀ o ∈ observations entries, o.2 = pass.context.live o.1 := by
        rw [hobserved]
        simp
      rw [calculate, hkind] at h
      cases h
      rw [Leaves, ← hpaths]
      exact ⟨fun path => Detection.find?_nextSnapshot hlive,
        fun path => Detection.find?_nextSnapshot_of_notMem⟩

/-- Visiting a slot all of whose inputs are done keeps what is remembered. -/
theorem remembers_visit (hbuild : Graph.build nodes = .ok pass.graph)
    (hagrees : pass.Agrees hreads progress done) (h : pass.Remembers progress done) {slot : Nat}
    {node : Node} (hnode : nodes[slot]? = some node)
    (hinputs : ∀ source, Wiring.Feeds nodes source slot → source ∈ done) {next : Progress}
    (hok : (pass.visit slot progress cache).1 = .ok next) :
    pass.Remembers next (done ++ [slot]) := by
  have hvalues := hagrees.forall₂_inputs hbuild hnode hinputs
  have hwired := Graph.wired_inputsWith hbuild (List.mem_of_getElem? hnode) hvalues
  rw [visit_fst_eq hbuild hnode] at hok
  cases hy : (pass.calculate node (pass.graph.inputsWith node
      ((pass.graph.inputsAt slot).map progress.result?)) cache).1 with
  | error error =>
      rw [hy] at hok
      cases hok
  | ok y =>
      rw [hy] at hok
      cases hok
      rw [← Graph.nodes_of_build hbuild] at hnode
      exact h.record hnode (leaves_of_calculate hwired hy)

/-- Finishing the order from where a pass stands keeps what is remembered. -/
theorem remembers_runSlots (hbuild : Graph.build nodes = .ok pass.graph) {slots : List Nat}
    (hlt : ∀ slot ∈ slots, slot < nodes.length)
    (horder : ∀ front slot back, done ++ slots = front ++ slot :: back →
      ∀ source, Wiring.Feeds nodes source slot → source ∈ front)
    (hagrees : pass.Agrees hreads progress done) (h : pass.Remembers progress done)
    (hsound : cache.Sound) {final : Progress}
    (hok : (pass.runSlots slots progress cache).1 = .ok final) :
    pass.Remembers final (done ++ slots) := by
  induction slots generalizing done progress cache with
  | nil =>
      cases hok
      rw [List.append_nil]
      exact h
  | cons slot rest ih =>
      have hnode := List.getElem?_eq_getElem (hlt slot List.mem_cons_self)
      have hinputs := horder done slot rest rfl
      have hnextAgrees := (settles_visit hbuild hsound hagrees hnode hinputs).1
      have hnextSound := sound_visit pass hsound slot progress
      have hassoc : done ++ slot :: rest = (done ++ [slot]) ++ rest := by simp
      unfold runSlots at hok
      split at hok
      · cases hok
      · rename_i following next heq
        rw [heq] at hnextAgrees hnextSound
        have hnext := remembers_visit hbuild hagrees h hnode hinputs (congrArg Prod.fst heq)
        rw [hassoc] at horder ⊢
        exact ih (fun other hother => hlt other (List.mem_cons_of_mem slot hother)) horder
          (hnextAgrees following rfl) hnext hnextSound hok

/-- A finished pass over all slots, each after those that feed it, remembers the watched paths
and no others. -/
theorem remembers_of_orders (hreads : WellFounded pass.graph.Reads)
    (hbuild : Graph.build nodes = .ok pass.graph) {slots : List Nat}
    (h : TopologicalOrder.Orders nodes slots) (hsound : cache.Sound)
    (hok : (pass.runSlots slots (Progress.start pass.graph.size) cache).1 = .ok progress) :
    pass.Remembers progress slots := by
  have hafter : ∀ front slot back, [] ++ slots = front ++ slot :: back →
      ∀ source, Wiring.Feeds nodes source slot → source ∈ front := h.after
  exact remembers_runSlots hbuild (fun slot => (h.mem_iff slot).1) hafter (agrees_start hreads)
    (remembers_start pass) hsound hok

/-- A finished pass remembers the watched paths and no others. -/
theorem remembers_run (hreads : WellFounded pass.graph.Reads)
    (hbuild : Graph.build nodes = .ok pass.graph) (hcycle : pass.graph.order.hasCycle = false)
    (hsound : cache.Sound) (hok : (pass.run cache).1 = .ok progress) :
    pass.Remembers progress (TopologicalOrder.ofNodes nodes).sorted := by
  rw [run, hcycle, Graph.order_of_build hbuild] at hok
  rw [Graph.order_of_build hbuild] at hcycle
  exact remembers_of_orders hreads hbuild (TopologicalOrder.orders_sorted hcycle) hsound hok

end Pass

namespace Evaluator

open TriggerGraph.Graph

variable [SchemaEngine] {nodes : List Node} {graph : Graph} {evaluator : Evaluator}
  {context : Context} {now : Timestamp} {outcome : Outcome}

/-! ## Successful evaluations -/

/-- A successful evaluation leaves an entry at each watched path; the path determines which. -/
theorem find?_snapshot_iff (hbuild : build nodes = .ok graph)
    (hcycle : graph.order.hasCycle = false) (hsound : evaluator.schemas.Sound)
    (h : (evaluator.evaluate graph context now).1 = .ok outcome) {path : String}
    {entry : SnapshotEntry} :
    outcome.snapshot.find? path = some entry ↔ graph.Watches path ∧
      entry = Detection.entryOf context.previous now (path, context.live path) := by
  rcases evaluate_eq_ok h with ⟨progress, final, hrun, -, -, houtcome⟩
  have hsnapshot : outcome.snapshot = progress.snapshot := congrArg Outcome.snapshot houtcome
  have hremembers : Pass.Remembers ⟨graph, context, now⟩ progress _ :=
    Pass.remembers_run (wellFounded_reads hbuild hcycle) hbuild hcycle hsound hrun
  rw [order_of_build hbuild] at hcycle
  rw [hsnapshot]
  exact hremembers.find?_iff hbuild (TopologicalOrder.hasCycle_eq_false_iff_forall_mem.1 hcycle)

/-- The entry at a watched path is the one that the value found there leaves. -/
theorem find?_snapshot_of_watches (hbuild : build nodes = .ok graph)
    (hcycle : graph.order.hasCycle = false) (hsound : evaluator.schemas.Sound)
    (h : (evaluator.evaluate graph context now).1 = .ok outcome) {path : String}
    (hpath : graph.Watches path) : outcome.snapshot.find? path =
      some (Detection.entryOf context.previous now (path, context.live path)) :=
  (find?_snapshot_iff hbuild hcycle hsound h).2 ⟨hpath, rfl⟩

/-- An active node that detects changes and watches some path fires when enough of its
paths are hit. -/
theorem exists_fired_of_config (hbuild : build nodes = .ok graph)
    (hcycle : graph.order.hasCycle = false) (hsound : evaluator.schemas.Sound)
    (h : (evaluator.evaluate graph context now).1 = .ok outcome) {node : Node}
    (hnode : node ∈ nodes) {detection : Detection} (hkind : node.kind = .config detection)
    (hactive : detection.active = true) (hwatched : graph.watchedBy node ≠ []) :
    ∃ fired, outcome.result? node.id = some (.bool fired) ∧
      (fired = true ↔ Detection.Enough detection.mode (graph.watchedBy node) fun path =>
        detection.isHit context.previous now (path, context.live path) = true) := by
  have hfind := (node?_eq_some_iff hbuild).2 ⟨hnode, rfl⟩
  have hvalue := reading_of_evaluate hbuild hcycle (wellFounded_reads hbuild hcycle) hsound h
    node.id
  rcases exists_values_of_reading_eq_ok hfind hvalue with ⟨values, hvalues, hmeaning⟩
  have hconfig : node.isConfig = true := by
    rw [Node.isConfig, hkind]
  have hobserved := observations_of_wired (wired_inputsWith hbuild hnode hvalues) hconfig
  have hpaths : (Pass.observations (graph.inputsWith node values)).map Prod.fst =
      graph.watchedBy node := by
    rw [hobserved]
    simp [Function.comp_def]
  have hfired : (detection.detect (Pass.observations (graph.inputsWith node values))
      context.previous now).fired = true ↔
        Detection.Enough detection.mode (graph.watchedBy node) fun path =>
          detection.isHit context.previous now (path, context.live path) = true := by
    rw [← hpaths]
    refine Detection.fired_iff hactive ?_ ?_
    · rw [hobserved]
      simpa using hwatched
    · rw [hobserved]
      simp
  unfold Node.meaning at hmeaning
  rw [hkind] at hmeaning
  exact ⟨_, (Except.ok.inj hmeaning).symm, hfired⟩

end Evaluator

end TriggerGraph
