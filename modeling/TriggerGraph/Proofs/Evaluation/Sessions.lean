import TriggerGraph.Proofs.Evaluation.Agreement

/-!
# Passes that share an evaluator

An evaluator lives through many passes, over one graph or over several, and all that it
carries from one to the next are compiled schemas.  Over a sound cache a node is calculated as
over any other sound cache, so what is held, what was dropped and what failed before never
shows in a result: each pass of a session ends as it would on an evaluator of its own.

Main results:

- Theorem `Pass.runSlots_fst_congr`: two passes whose slots are visited alike end alike.
- Theorem `Evaluator.evaluate_fst_eq_of_sound`: evaluators with sound caches answer alike.
- Theorem `Evaluator.sessions_do_not_see_the_cache`: every pass of a session has the result
  that it has on a fresh evaluator, and no reachable cache holds anything but compilations.
-/

namespace TriggerGraph

namespace Pass

variable [SchemaEngine] {pass other : Pass} {cache memo : SchemaCache}

/-! ## Passes that go alike -/

/-- Two passes over the same slots end alike if over any sound caches they visit each slot
alike, whatever was calculated before it. -/
theorem runSlots_fst_congr {slots : List Nat}
    (hvisit : ∀ slot ∈ slots, ∀ progress (cache memo : SchemaCache), cache.Sound → memo.Sound →
      (pass.visit slot progress cache).1 = (other.visit slot progress memo).1)
    (hcache : cache.Sound) (hmemo : memo.Sound) (progress : Progress) :
    (pass.runSlots slots progress cache).1 = (other.runSlots slots progress memo).1 := by
  induction slots generalizing progress cache memo with
  | nil => rfl
  | cons slot rest ih =>
      rw [List.forall_mem_cons] at hvisit
      have hsame := hvisit.1 progress cache memo hcache hmemo
      have hcacheNext := sound_visit pass hcache slot progress
      have hmemoNext := sound_visit other hmemo slot progress
      unfold runSlots
      rcases hleft : pass.visit slot progress cache with ⟨result, cacheNext⟩
      rcases hright : other.visit slot progress memo with ⟨result', memoNext⟩
      rw [hleft, hright] at hsame
      rw [hleft] at hcacheNext
      rw [hright] at hmemoNext
      cases hsame
      cases result with
      | error error => rfl
      | ok next => exact ih hvisit.2 hcacheNext hmemoNext next

/-- Over sound caches a node is calculated alike. -/
theorem calculate_fst_eq_of_sound (pass : Pass) (hcache : cache.Sound) (hmemo : memo.Sound)
    (node : Node) (wired : List (Node × Option Value)) :
    (pass.calculate node wired cache).1 = (pass.calculate node wired memo).1 := by
  unfold calculate
  cases node.kind with
  | logic operator =>
      have hleft := (Operator.run_of_sound hcache operator (pass.operands node.id wired)).1
      have hright := (Operator.run_of_sound hmemo operator (pass.operands node.id wired)).1
      dsimp only
      rw [hleft, hright]
  | _ => rfl

/-- Over sound caches a slot is visited alike. -/
theorem visit_fst_eq_of_sound (pass : Pass) (hcache : cache.Sound) (hmemo : memo.Sound)
    (slot : Nat) (progress : Progress) :
    (pass.visit slot progress cache).1 = (pass.visit slot progress memo).1 := by
  unfold visit
  cases pass.graph.nodes[slot]? with
  | none => rfl
  | some node =>
      dsimp only
      rw [calculate_fst_eq_of_sound pass hcache hmemo]

/-- Over sound caches a pass ends alike, on whatever graph. -/
theorem run_fst_eq_of_sound (pass : Pass) (hcache : cache.Sound) (hmemo : memo.Sound) :
    (pass.run cache).1 = (pass.run memo).1 := by
  unfold run
  split
  · rfl
  · exact runSlots_fst_congr (fun slot _ progress _ _ hcache hmemo =>
      visit_fst_eq_of_sound pass hcache hmemo slot progress) hcache hmemo _

end Pass

namespace Evaluator

variable [SchemaEngine] {evaluator other : Evaluator}

/-- Evaluators with sound caches answer alike. -/
theorem evaluate_fst_eq_of_sound (hsound : evaluator.schemas.Sound) (hother : other.schemas.Sound)
    (graph : Graph) (context : Context) (now : Timestamp) :
    (evaluator.evaluate graph context now).1 = (other.evaluate graph context now).1 := by
  unfold evaluate
  dsimp only
  rw [Pass.run_fst_eq_of_sound _ hsound hother]

/-! ## Sessions -/

/-- The results of passes run one after the other, and the evaluator after the last.  Each
pass starts with the schemas that the passes before it left. -/
def serve (evaluator : Evaluator) :
    List Pass → List (Except EvaluationError Outcome) × Evaluator
  | [] => ([], evaluator)
  | pass :: rest =>
    let ran := evaluator.evaluate pass.graph pass.context pass.now
    let served := serve ran.2 rest
    (ran.1 :: served.1, served.2)

theorem Reachable.serve (h : evaluator.Reachable) (passes : List Pass) :
    (evaluator.serve passes).2.Reachable := by
  induction passes generalizing evaluator with
  | nil => exact h
  | cons pass rest ih => exact ih (h.evaluated pass.graph pass.context pass.now)

/-- A session on a sound evaluator has the results of its single passes on any other. -/
theorem serve_fst_eq_map (hsound : evaluator.schemas.Sound) (hother : other.schemas.Sound)
    (passes : List Pass) :
    (evaluator.serve passes).1 =
      passes.map fun pass => (other.evaluate pass.graph pass.context pass.now).1 := by
  induction passes generalizing evaluator with
  | nil => rfl
  | cons pass rest ih =>
      have hnext : (evaluator.evaluate pass.graph pass.context pass.now).2.schemas.Sound :=
        Pass.sound_run _ hsound
      rw [serve, List.map_cons]
      exact congrArg₂ List.cons
        (evaluate_fst_eq_of_sound hsound hother pass.graph pass.context pass.now) (ih hnext)

/-- Every pass of a session has the result, be it an outcome or an error, that it has on a
fresh evaluator, whatever the capacities are and whichever entries are dropped.  For in every
cache that can be reached, before, during and after a session, the answer held for a text is
what the text compiles to, failures included. -/
theorem sessions_do_not_see_the_cache (capacity spare : Nat) (victim choice : Nat → Nat)
    (passes : List Pass) :
    let session := serve ⟨SchemaCache.withCapacity capacity victim⟩ passes
    let fresh : Evaluator := ⟨SchemaCache.withCapacity spare choice⟩
    session.1 = passes.map (fun pass =>
        (fresh.evaluate pass.graph pass.context pass.now).1) ∧
      session.2.Reachable ∧
      ∀ reached : Evaluator, reached.Reachable →
        ∀ entry ∈ reached.schemas.entries, entry.2 = Schema.compile entry.1 := by
  intro session fresh
  refine ⟨?_, ?_, ?_⟩
  · exact serve_fst_eq_map (SchemaCache.sound_withCapacity capacity victim)
      (SchemaCache.sound_withCapacity spare choice) passes
  · exact Reachable.serve (.made capacity victim) passes
  · intro reached hreached
    exact hreached.sound

end Evaluator

end TriggerGraph
