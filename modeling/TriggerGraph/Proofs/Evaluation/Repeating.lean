import TriggerGraph.Proofs.Evaluation.Merging

/-!
# The same data once more

When a pass is repeated over the same source, with the snapshot that it left and at any time,
it finds nothing changed.  The entry left of a value holds an equal value, so it is left again
as it is, and a detection that asks for changes stays quiet.  What does not depend on
detection gets the very result that it had.

Main results:

- Theorem `Detection.entryOf_of_left`: an entry once left is left again.
- Theorem `Graph.reading_eq_of_forall_not_config`: values that do not depend on detection
  depend on the source alone.
- Theorem `Evaluator.repeated_pass_is_quiet`: a repeated pass succeeds, leaves the same
  snapshot and fires nothing.
-/

namespace TriggerGraph

open Relation

/-! ## Entries left before -/

namespace Detection

variable {previous left : Snapshot} {now : Timestamp} {observed : Observation}
  {mode : DetectionMode} {paths : List String} {hit : String → Prop}

/-- What left an entry has not changed since. -/
theorem isChanged_of_left (h : left.find? observed.1 = some (entryOf previous now observed)) :
    isChanged left observed = false := by
  unfold isChanged
  rw [h]
  simp [equalOption_entryOf observed]

/-- An entry once left is left again. -/
theorem entryOf_of_left (h : left.find? observed.1 = some (entryOf previous now observed))
    (later : Timestamp) : entryOf left later observed = entryOf previous now observed :=
  entryOf_of_unchanged later h (isChanged_of_left h)

/-- Without a hit no mode finds enough of them. -/
theorem not_enough_of_forall_not (hpaths : paths ≠ []) (h : ∀ path ∈ paths, ¬ hit path) :
    ¬ Enough mode paths hit := by
  cases mode with
  | anyPath =>
      rintro ⟨path, hpath, hhit⟩
      exact h path hpath hhit
  | everyPath =>
      intro hall
      rcases List.exists_mem_of_ne_nil paths hpaths with ⟨path, hpath⟩
      exact h path hpath (hall path hpath)

end Detection

/-! ## Values that do not depend on detection -/

/-- What any node but a detection means depends on the source alone. -/
theorem Node.meaning_of_not_isConfig [SchemaEngine] {node : Node} (hconfig : node.isConfig = false)
    {context memory : Context} (hsource : context.source = memory.source)
    (now later : Timestamp) (inputs : List (Node × Option Value)) :
    node.meaning context now inputs = node.meaning memory later inputs := by
  unfold meaning
  rw [hsource]
  cases hkind : node.kind with
  | config detection =>
      rw [Node.isConfig, hkind] at hconfig
      cases hconfig
  | constant value => cases value <;> rfl
  | _ => rfl

namespace Graph

variable {nodes : List Node} {graph : Graph} {context memory : Context} {now later : Timestamp}

/-- A value that does not depend on detection depends on the source alone. -/
theorem reading_eq_of_forall_not_config [SchemaEngine] (hbuild : build nodes = .ok graph)
    (hreads : WellFounded graph.Reads) (hsource : context.source = memory.source) {id : NodeId}
    (hfree : ∀ config ∈ nodes, config.isConfig = true →
      ¬ ReflTransGen graph.Reads config.id id) :
    graph.reading context now hreads id = graph.reading memory later hreads id := by
  refine reading_congr rfl fun source node hreach hnode inputs => ?_
  rcases (node?_eq_some_iff hbuild).1 hnode with ⟨hmem, rfl⟩
  have hconfig : node.isConfig = false := by
    by_contra h
    exact hfree node hmem (Bool.not_eq_false _ ▸ h) hreach
  exact Node.meaning_of_not_isConfig hconfig hsource now later inputs

end Graph

namespace Evaluator

open TriggerGraph.Graph

section AnyEngine

variable [SchemaEngine] {nodes : List Node} {graph : Graph} {evaluator again : Evaluator}
  {context : Context} {now later : Timestamp} {outcome repeated : Outcome}

/-! ## A repeated pass -/

section Repeated

variable (hbuild : build nodes = .ok graph) (hcycle : graph.order.hasCycle = false)
  (hsound : evaluator.schemas.Sound) (hagain : again.schemas.Sound)
  (h : (evaluator.evaluate graph context now).1 = .ok outcome)
  (hrepeated : (again.evaluate graph (context.withSnapshot outcome.snapshot) later).1 =
    .ok repeated)

include hbuild hcycle hsound hagain h hrepeated

/-- A repeated pass leaves the snapshot that it got. -/
theorem snapshot_of_repeated : repeated.snapshot = outcome.snapshot := by
  refine Snapshot.ext_find? fun path => Option.ext fun entry => ?_
  rw [find?_snapshot_iff hbuild hcycle hagain hrepeated, find?_snapshot_iff hbuild hcycle hsound h]
  refine and_congr_right fun hpath => ?_
  have hleft := find?_snapshot_of_watches hbuild hcycle hsound h hpath
  -- the entry left holds an equal value, whatever was remembered before
  have hentry : Detection.entryOf outcome.snapshot later (path, context.live path) =
      Detection.entryOf context.previous now (path, context.live path) :=
    Detection.entryOf_of_left hleft later
  rw [← hentry]
  rfl

/-- An active detection without a window does not fire in a repeated pass. -/
theorem result?_of_repeated {config : Node} (hconfig : config ∈ nodes) {detection : Detection}
    (hkind : config.kind = .config detection) (hactive : detection.active = true)
    (hwindow : detection.windowEnabled = false) (hwatched : graph.watchedBy config ≠ []) :
    repeated.result? config.id = some (.bool false) := by
  rcases exists_fired_of_config hbuild hcycle hagain hrepeated hconfig hkind hactive hwatched with
    ⟨fired, hresult, hfired⟩
  have hquiet : ¬ fired = true := by
    rw [hfired]
    refine Detection.not_enough_of_forall_not hwatched fun path hpath => ?_
    have hwatches : graph.Watches path := ⟨config, by rwa [nodes_of_build hbuild], hpath⟩
    have hleft := find?_snapshot_of_watches hbuild hcycle hsound h hwatches
    have hsame : Detection.isChanged outcome.snapshot (path, context.live path) = false :=
      Detection.isChanged_of_left hleft
    rw [Detection.isHit, hwindow, if_neg Bool.false_ne_true]
    exact ne_true_of_eq_false hsame
  rw [Bool.not_eq_true] at hquiet
  rw [hresult, hquiet]

end Repeated

/-- When a pass is repeated over the same source with the snapshot that it left, it succeeds
again and leaves the same snapshot, whatever the time.  No active detection without a window
fires that has a provider, and what does not depend on a detection keeps its result. -/
theorem repeated_pass_is_quiet (hbuild : build nodes = .ok graph)
    (hcycle : graph.order.hasCycle = false) (hreachable : evaluator.Reachable)
    (hagain : again.Reachable) (h : (evaluator.evaluate graph context now).1 = .ok outcome)
    (later : Timestamp) :
    ∃ repeated, (again.evaluate graph (context.withSnapshot outcome.snapshot) later).1 =
        .ok repeated ∧
      repeated.snapshot = outcome.snapshot ∧
      (∀ config ∈ nodes, ∀ detection, config.kind = .config detection →
        detection.active = true → detection.windowEnabled = false →
        (∃ provider ∈ nodes, provider.id ∈ config.inputs ∧ provider.isProvider = true) →
          repeated.result? config.id = some (.bool false)) ∧
      ∀ node ∈ nodes, (∀ config ∈ nodes, config.isConfig = true →
          ¬ ReflTransGen graph.Reads config.id node.id) →
        repeated.result? node.id = outcome.result? node.id := by
  have hreads := wellFounded_reads hbuild hcycle
  have hsound := hreachable.sound
  have hself : graph.Retunes graph := fun _ => rfl
  have hsource : context.source = (context.withSnapshot outcome.snapshot).source := rfl
  have hok : ∃ repeated, (again.evaluate graph (context.withSnapshot outcome.snapshot)
      later).1 = .ok repeated :=
    exists_outcome_of_retuned hbuild hcycle hsound hbuild hcycle hagain.sound hself hsource h
  rcases hok with ⟨repeated, hrepeated⟩
  refine ⟨repeated, hrepeated,
    snapshot_of_repeated hbuild hcycle hsound hagain.sound h hrepeated, ?_, ?_⟩
  · intro config hconfig detection hkind hactive hwindow hexists
    rcases hexists with ⟨provider, hprovider, hinput, hisProvider⟩
    rcases Node.exists_path_of_isProvider hisProvider with ⟨path, hpath⟩
    have hisConfig : config.isConfig = true := by
      rw [Node.isConfig, hkind]
    have hmem : path ∈ graph.watchedBy config :=
      (mem_watchedBy_iff hbuild).2 ⟨hisConfig, provider, hprovider, hinput, hpath⟩
    exact result?_of_repeated hbuild hcycle hsound hagain.sound h hrepeated hconfig hkind hactive
      hwindow (List.ne_nil_of_mem hmem)
  · intro node _ hfree
    have hfirst := reading_of_evaluate hbuild hcycle hreads hsound h node.id
    have hsecond := reading_of_evaluate hbuild hcycle hreads hagain.sound hrepeated node.id
    have hsame : graph.reading context now hreads node.id =
        graph.reading (context.withSnapshot outcome.snapshot) later hreads node.id :=
      reading_eq_of_forall_not_config hbuild hreads hsource hfree
    rw [hfirst, hsecond] at hsame
    exact (Except.ok.inj hsame).symm

end AnyEngine

/-- A detection that fires on the first sight of two values, one of them absent, beside an
operator that reads the source alone. -/
def doorbell : List Node :=
  [.final 5 (some 3), .logic 4 .isTrue [1], .config 3 Detection.allChanged [1, 2],
    .provider 2 "source.name", .provider 1 "source.pressed"]

/-- The doorbell with its inputs resolved and its order. -/
def doorbellGraph : Graph :=
  ⟨doorbell, [(1, 4), (2, 3), (3, 2), (4, 1), (5, 0)],
    [[2], [4], [4, 3], [], []], ⟨[3, 4, 1, 2, 0], false, []⟩⟩

/-- A pressed button without a name. -/
def doorbellContext : Context := .ofSource (.object [("pressed", .bool true)])

section BooleanSchemas

attribute [local instance] SchemaEngine.booleans

/-- The doorbell rings once. -/
theorem doorbell_is_quiet :
    ∃ outcome, (fresh.evaluate doorbellGraph doorbellContext 7).1 = .ok outcome ∧
      outcome.verdict = true ∧
      ∃ repeated, (fresh.evaluate doorbellGraph
          (doorbellContext.withSnapshot outcome.snapshot) 3).1 = .ok repeated ∧
        repeated.snapshot = outcome.snapshot ∧ repeated.result? 3 = some (.bool false) := by
  have hbuild : build doorbell = .ok doorbellGraph := by rfl
  have hcycle : doorbellGraph.order.hasCycle = false := by rfl
  have hfresh : fresh.Reachable := .made SchemaCache.defaultCapacity fun _ => 0
  have hverdict : fresh.verdict doorbellGraph doorbellContext 7 = .ok true := by rfl
  rcases exists_outcome_of_verdict hverdict with ⟨outcome, houtcome, htrue⟩
  rcases repeated_pass_is_quiet hbuild hcycle hfresh hfresh houtcome 3 with
    ⟨repeated, hrepeated, hsnapshot, hquiet, -⟩
  have hbell : (.config 3 Detection.allChanged [1, 2] : Node) ∈ doorbell := by
    simp [doorbell]
  have hprovider : (.provider 1 "source.pressed" : Node) ∈ doorbell := by
    simp [doorbell]
  refine ⟨outcome, houtcome, htrue, repeated, hrepeated, hsnapshot, ?_⟩
  exact hquiet _ hbell _ rfl rfl rfl ⟨_, hprovider, by decide, rfl⟩

end BooleanSchemas

end Evaluator

end TriggerGraph
