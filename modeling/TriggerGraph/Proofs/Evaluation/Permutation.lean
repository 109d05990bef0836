import TriggerGraph.Proofs.Evaluation.Merging
import TriggerGraph.Proofs.Graph.Permutation

/-!
# Passes over permuted lists

The graphs of a list and of a permutation of it differ in their slots, in the order in which
a pass visits these, and in which node fails first.  But they have the same node for each
identity, so the recursive reading is the same; and as a pass agrees with the reading, both
passes succeed or both fail, and what a successful one leaves is the same.

Main results:

- Theorem `Graph.node?_eq_of_perm`: permuted lists have the same node for each identity.
- Theorems `Evaluator.exists_outcome_of_perm` and `Evaluator.alike_of_perm`: their passes
  succeed alike and leave the same.
- Theorem `Evaluator.order_of_nodes_is_irrelevant`: nothing but the slots depends on the order
  of the nodes.
-/

namespace TriggerGraph

/-- The outcomes of two passes are the same but for the order of the results. -/
structure Outcome.Alike (outcome found : Outcome) : Prop where
  verdict : outcome.verdict = found.verdict
  snapshot : outcome.snapshot = found.snapshot
  result : ∀ id, outcome.result? id = found.result? id

namespace Graph

variable {nodes others : List Node} {graph other : Graph}

/-- Permuted lists have the same node for each identity. -/
theorem node?_eq_of_perm (hperm : nodes.Perm others) (hbuild : build nodes = .ok graph)
    (hother : build others = .ok other) : graph.node? = other.node? := by
  refine funext fun id => Option.ext fun node => ?_
  rw [node?_eq_some_iff hbuild, node?_eq_some_iff hother, hperm.mem_iff]

theorem watches_of_perm (hperm : nodes.Perm others) (hbuild : build nodes = .ok graph)
    (hother : build others = .ok other) {path : String} (h : graph.Watches path) :
    other.Watches path := by
  rcases h with ⟨config, hconfig, hpath⟩
  rw [nodes_of_build hbuild] at hconfig
  refine ⟨config, ?_, ?_⟩
  · rw [nodes_of_build hother]
    exact hperm.mem_iff.1 hconfig
  · rw [watchedBy, ← node?_eq_of_perm hperm hbuild hother]
    exact hpath

end Graph

namespace Evaluator

open TriggerGraph.Graph TriggerGraph.Validation

section AnyEngine

variable [SchemaEngine] {nodes others : List Node} {graph other : Graph}
  {evaluator again : Evaluator} {context : Context} {now : Timestamp} {outcome found : Outcome}

/-- The only final node results in the verdict. -/
theorem result?_of_final (hbuild : build nodes = .ok graph)
    (hcycle : graph.order.hasCycle = false) (hsound : evaluator.schemas.Sound)
    (h : (evaluator.evaluate graph context now).1 = .ok outcome) {final : Node}
    (hone : nodes.filter Node.isFinal = [final]) :
    outcome.result? final.id = some (.bool outcome.verdict) := by
  have hreads := wellFounded_reads hbuild hcycle
  rcases verdict_of_evaluate hbuild hcycle hreads hsound h with ⟨first, hfind, hvalue⟩
  have hmem : first ∈ nodes.filter Node.isFinal :=
    List.mem_filter.2 ⟨List.mem_of_find?_eq_some hfind, List.find?_some hfind⟩
  rw [hone, List.mem_singleton] at hmem
  rw [hmem, reading_of_evaluate hbuild hcycle hreads hsound h] at hvalue
  exact Except.ok.inj hvalue

/-! ## Graphs of permuted lists -/

section Permuted

variable (hperm : nodes.Perm others) (hbuild : build nodes = .ok graph)
  (hother : build others = .ok other) (hcycle : graph.order.hasCycle = false)
  (hacyclic : other.order.hasCycle = false) (hsound : evaluator.schemas.Sound)
  (hagain : again.schemas.Sound) (h : (evaluator.evaluate graph context now).1 = .ok outcome)

include hperm hbuild hother hcycle hacyclic hsound hagain h

/-- When a pass succeeds, so does a pass over a permutation. -/
theorem exists_outcome_of_perm :
    ∃ found, (again.evaluate other context now).1 = .ok found := by
  have hsame : graph.Retunes other := by
    intro id
    rw [node?_eq_of_perm hperm hbuild hother]
  exact exists_outcome_of_retuned hbuild hcycle hsound hother hacyclic hagain hsame rfl h

variable (hfound : (again.evaluate other context now).1 = .ok found)

include hfound

/-- Passes over permuted lists leave the same result for each identity. -/
theorem result?_eq_of_perm (id : NodeId) : outcome.result? id = found.result? id := by
  have hreads := wellFounded_reads hbuild hcycle
  have hotherReads := wellFounded_reads hother hacyclic
  have hsame : graph.reading context now hreads id = other.reading context now hotherReads id :=
    reading_congr (node?_eq_of_perm hperm hbuild hother) fun _ _ _ _ _ => rfl
  rw [reading_of_evaluate hbuild hcycle hreads hsound h,
    reading_of_evaluate hother hacyclic hotherReads hagain hfound] at hsame
  exact Except.ok.inj hsame

/-- Passes over permuted lists leave the same snapshot. -/
theorem snapshot_eq_of_perm : outcome.snapshot = found.snapshot := by
  refine Snapshot.ext_find? fun path => Option.ext fun entry => ?_
  rw [find?_snapshot_iff hbuild hcycle hsound h, find?_snapshot_iff hother hacyclic hagain hfound]
  refine and_congr_left fun _ => ?_
  exact ⟨watches_of_perm hperm hbuild hother, watches_of_perm hperm.symm hother hbuild⟩

/-- Passes over permuted lists with one final node leave the same. -/
theorem alike_of_perm {final : Node} (hone : nodes.filter Node.isFinal = [final]) :
    outcome.Alike found := by
  have hresult : ∀ id, outcome.result? id = found.result? id := fun id =>
    result?_eq_of_perm hperm hbuild hother hcycle hacyclic hsound hagain h hfound id
  have hsnapshot : outcome.snapshot = found.snapshot :=
    snapshot_eq_of_perm hperm hbuild hother hcycle hacyclic hsound hagain h hfound
  -- of several final nodes another one could come first in the permutation
  have hverdict := hresult final.id
  rw [result?_of_final hbuild hcycle hsound h hone, result?_of_final hother hacyclic hagain hfound
    (filter_eq_singleton_of_perm hperm hone)] at hverdict
  exact ⟨Value.bool.inj (Option.some.inj hverdict), hsnapshot, hresult⟩

end Permuted

/-! ## The order of the nodes -/

/-- Nothing but the slots depends on the order in which nodes are listed.  Permutations of a
list are accepted alike; if identities are distinct, they have the same cycles and the same
identities sorted; and if they are accepted, both compile, and in every pass both fail or both
succeed and leave the same. -/
theorem order_of_nodes_is_irrelevant (hperm : nodes.Perm others) (declared : Nat) :
    (validate nodes declared = [] ↔ validate others declared = []) ∧
      ((nodes.map (·.id)).Nodup →
        (TopologicalOrder.ofNodes nodes).hasCycle = (TopologicalOrder.ofNodes others).hasCycle ∧
          (TopologicalOrder.ofNodes nodes).cycleIds =
            (TopologicalOrder.ofNodes others).cycleIds ∧
          ∀ id, id ∈ (TopologicalOrder.ofNodes nodes).sortedIds nodes ↔
            id ∈ (TopologicalOrder.ofNodes others).sortedIds others) ∧
      (validate nodes declared = [] →
        ∃ graph other, compileNodes nodes = .ok graph ∧ compileNodes others = .ok other ∧
          ∀ evaluator again : Evaluator, evaluator.Reachable → again.Reachable →
            ∀ context now,
              (∃ outcome found, (evaluator.evaluate graph context now).1 = .ok outcome ∧
                (again.evaluate other context now).1 = .ok found ∧ outcome.Alike found) ∨
              ∃ error failure, (evaluator.evaluate graph context now).1 = .error error ∧
                (again.evaluate other context now).1 = .error failure) := by
  refine ⟨validate_eq_nil_iff_of_perm hperm, fun hdistinct => ⟨?_, ?_, fun id => ?_⟩, ?_⟩
  · exact TopologicalOrder.hasCycle_eq_of_perm hperm hdistinct
  · exact TopologicalOrder.cycleIds_eq_of_perm hperm hdistinct
  · exact TopologicalOrder.mem_sortedIds_iff_of_perm hperm hdistinct
  · intro haccepted
    have hpermuted := accepted_of_perm hperm haccepted
    rcases exists_compileNodes_of_accepted haccepted with ⟨graph, hcompile, hbuild⟩
    rcases exists_compileNodes_of_accepted hpermuted with ⟨other, hcompileOther, hother⟩
    have hcycle : graph.order.hasCycle = false := by
      rw [order_of_build hbuild]
      exact hasCycle_of_accepted haccepted
    have hacyclic : other.order.hasCycle = false := by
      rw [order_of_build hother]
      exact hasCycle_of_accepted hpermuted
    rcases (publishable_of_accepted haccepted).final with ⟨final, hone, -⟩
    refine ⟨graph, other, hcompile, hcompileOther, ?_⟩
    intro evaluator again hreachable hagain context now
    have hsound := hreachable.sound
    have hsoundAgain := hagain.sound
    cases h : (evaluator.evaluate graph context now).1 with
    | ok outcome =>
        rcases exists_outcome_of_perm hperm hbuild hother hcycle hacyclic hsound hsoundAgain h with
          ⟨found, hfound⟩
        have halike : outcome.Alike found := alike_of_perm hperm hbuild hother hcycle hacyclic
          hsound hsoundAgain h hfound hone
        exact Or.inl ⟨outcome, found, rfl, hfound, halike⟩
    | error error =>
        cases hfound : (again.evaluate other context now).1 with
        | ok found =>
            rcases exists_outcome_of_perm hperm.symm hother hbuild hacyclic hcycle hsoundAgain
              hsound hfound with ⟨outcome, houtcome⟩
            cases h.symm.trans houtcome
        | error failure => exact Or.inr ⟨error, failure, rfl, rfl⟩

end AnyEngine

/-- Two detections that share a provider and feed one operator. -/
def relay : List Node :=
  [.provider 1 "source.a", .provider 2 "source.b", .config 3 Detection.anyChange [1, 2],
    .config 4 Detection.allChanged [2], .logic 5 .or [3, 4], .final 6 (some 5)]

/-- The relay with its inputs resolved and its order. -/
def relayGraph : Graph :=
  ⟨relay, [(6, 5), (5, 4), (4, 3), (3, 2), (2, 1), (1, 0)],
    [[], [], [0, 1], [1], [2, 3], [4]], ⟨[0, 1, 2, 3, 4, 5], false, []⟩⟩

/-- A value for one of the providers. -/
def relayContext : Context := .ofSource (.object [("a", .bool true)])

section BooleanSchemas

attribute [local instance] SchemaEngine.booleans

/-- The relay and its reversal are ordered and evaluated alike. -/
theorem reversed_relay_is_alike :
    (∀ id, id ∈ (TopologicalOrder.ofNodes relay).sortedIds relay ↔
        id ∈ (TopologicalOrder.ofNodes relay.reverse).sortedIds relay.reverse) ∧
      ∃ other outcome found, compileNodes relay.reverse = .ok other ∧
        (fresh.evaluate relayGraph relayContext 7).1 = .ok outcome ∧
        (fresh.evaluate other relayContext 7).1 = .ok found ∧ outcome.Alike found := by
  have hperm : relay.Perm relay.reverse := relay.reverse_perm.symm
  have hdistinct : (relay.map (·.id)).Nodup := by decide
  have haccepted : validate relay 6 = [] := by rfl
  have hcompile : compileNodes relay = .ok relayGraph := by rfl
  have hfresh : fresh.Reachable := .made SchemaCache.defaultCapacity fun _ => 0
  have hverdict : fresh.verdict relayGraph relayContext 7 = .ok true := by rfl
  rcases exists_outcome_of_verdict hverdict with ⟨outcome, houtcome, -⟩
  rcases order_of_nodes_is_irrelevant hperm 6 with ⟨-, horder, hpasses⟩
  rcases hpasses haccepted with ⟨graph, other, hgraph, hother, halike⟩
  cases hcompile.symm.trans hgraph
  refine ⟨(horder hdistinct).2.2, other, ?_⟩
  rcases halike fresh fresh hfresh hfresh relayContext 7 with
    ⟨left, right, hleft, hright, hsame⟩ | ⟨error, failure, herror, -⟩
  · exact ⟨left, right, hother, hleft, hright, hsame⟩
  · cases herror.symm.trans houtcome

end BooleanSchemas

end Evaluator

end TriggerGraph
