import Mathlib.Algebra.Order.BigOperators.Group.Finset
import TriggerGraph.Proofs.Graph.LowLinks

/-!
# The search from root to root

Every step follows an edge, meets a slot or leaves one, so the search of a root comes to
its end; it then leaves the stack empty, and the root is closed.  After all roots the
components part the live slots, and those with a cycle mark the slots that reach
themselves.

Main results:

- Theorem `Search.cost_lt`: every step costs at least one unit.
- Theorem `LiveGraph.between_searched`: after any number of roots the way is at its end.
- Theorem `LiveGraph.mem_component_iff`: a component holds exactly the slots that
  reach its members and are reached by them.
- Theorem `LiveGraph.mem_cycleSlots_iff`: the search marks exactly the slots that
  reach themselves along live edges.
- Theorem `LiveGraph.search_marks_cycles`: every root's search ends with an empty stack,
  the live slots are parted among the components, and the slots on cycles are marked.
-/

namespace TriggerGraph

open Relation

namespace Search

variable {g : LiveGraph} {s next : Search}

/-! ## What a step leaves as it is -/

/-- Two searches on the same way that have met the same slots. -/
def SameWay (s t : Search) : Prop :=
  s.frames = t.frames ∧ ∀ slot, (s.visit? slot).isSome = (t.visit? slot).isSome

theorem sameWay_passOn (s : Search) (low : Nat) : (s.passOn low).SameWay s := by
  unfold passOn
  split
  · exact ⟨rfl, fun _ => rfl⟩
  · exact ⟨rfl, isSome_visit?_lower s _ low⟩

/-- Leaving a slot changes neither the rest of the way nor which slots are met. -/
theorem sameWay_leave (s : Search) (slot : Nat) : (s.leave slot).SameWay s := by
  unfold leave
  split
  · exact ⟨rfl, fun _ => rfl⟩
  · rename_i visit _
    have hpass := sameWay_passOn s visit.lowLink
    dsimp only
    split
    · refine ⟨hpass.1, fun other => ?_⟩
      rw [isSome_visit?_cut]
      exact hpass.2 other
    · exact hpass

/-- Following an edge meets a slot, or changes neither the way nor which slots are met. -/
theorem enter_or_sameWay_follow (g : LiveGraph) (s : Search) (slot target : Nat) :
    g.isLive target = true ∧ s.visit? target = none ∧ s.follow g slot target = s.enter g target ∨
      (s.follow g slot target).SameWay s := by
  unfold follow
  split
  · exact Or.inr ⟨rfl, fun _ => rfl⟩
  · rename_i hlive
    split
    · rename_i hvisit
      exact Or.inl ⟨by simpa using hlive, hvisit, rfl⟩
    · right
      split
      · exact ⟨rfl, isSome_visit?_lower s slot _⟩
      · exact ⟨rfl, fun _ => rfl⟩

/-! ## The cost of a search -/

/-- What the live slots not met yet will cost: each is met and left, and its edges are
followed. -/
def freshCost (g : LiveGraph) (s : Search) : Nat :=
  ∑ slot ∈ (Finset.range g.live.length).filter fun slot =>
    g.isLive slot = true ∧ (s.visit? slot).isSome = false, ((g.next slot).length + 2)

/-- What the way will cost: its edges not yet followed and leaving its slots. -/
def wayCost : List Frame → Nat
  | [] => 0
  | frame :: below => frame.pending.length + 1 + wayCost below

/-- The steps that are left at most. -/
def cost (g : LiveGraph) (s : Search) : Nat := wayCost s.frames + freshCost g s

/-- Entering a slot pays for its neighbours. -/
theorem freshCost_enter {slot : Nat} (hlive : g.isLive slot = true)
    (hlt : slot < s.visits.length) (hfresh : s.visit? slot = none) :
    freshCost g s = freshCost g (s.enter g slot) + ((g.next slot).length + 2) := by
  unfold freshCost
  have hmem : slot ∈ (Finset.range g.live.length).filter fun other =>
      g.isLive other = true ∧ (s.visit? other).isSome = false := by
    simp [lt_of_isLive hlive, hlive, hfresh]
  have herase : ((Finset.range g.live.length).filter fun other =>
      g.isLive other = true ∧ (s.visit? other).isSome = false).erase slot =
      (Finset.range g.live.length).filter fun other =>
        g.isLive other = true ∧ ((s.enter g slot).visit? other).isSome = false := by
    ext other
    simp only [Finset.mem_erase, Finset.mem_filter, visit?_enter hlt]
    by_cases heq : other = slot
    · simp [heq]
    · simp [heq]
  rw [← herase, Finset.sum_erase_add _ _ hmem]

/-- Meeting a slot pays for it. -/
theorem cost_enter {slot : Nat} (hlive : g.isLive slot = true)
    (hlt : slot < s.visits.length) (hfresh : s.visit? slot = none) :
    cost g (s.enter g slot) + 1 = cost g s := by
  have hsum := freshCost_enter hlive hlt hfresh
  have hway : wayCost (s.enter g slot).frames = (g.next slot).length + 1 + wayCost s.frames := rfl
  unfold cost
  omega

theorem cost_congr {t : Search} (h : t.SameWay s) : cost g t = cost g s := by
  simp [cost, freshCost, h.1, h.2]

/-- Every step costs at least one unit. -/
theorem cost_lt (hlength : s.visits.length = g.live.length) (hstep : s.step? g = some next) :
    cost g next < cost g s := by
  rcases eq_of_step? hstep with ⟨slot, below, hframes, rfl⟩ | ⟨slot, target, pending, below,
    hframes, rfl⟩
  · rw [cost_congr (sameWay_leave _ slot)]
    have hcost : cost g { s with frames := below } = wayCost below + freshCost g s := rfl
    rw [hcost, cost, hframes, wayCost]
    omega
  · have hcost : cost g { s with frames := ⟨slot, pending⟩ :: below } =
        pending.length + 1 + wayCost below + freshCost g s := rfl
    have hless : cost g { s with frames := ⟨slot, pending⟩ :: below } < cost g s := by
      rw [hcost, cost, hframes, wayCost, List.length_cons]
      omega
    rcases enter_or_sameWay_follow g { s with frames := ⟨slot, pending⟩ :: below } slot target with
      ⟨hlive, hvisit, heq⟩ | hsame
    · have hpaid := cost_enter (s := { s with frames := ⟨slot, pending⟩ :: below }) hlive
        (hlength ▸ lt_of_isLive hlive) hvisit
      rw [heq]
      omega
    · rw [cost_congr hsame]
      exact hless

/-! ## Running the search -/

theorem run_succ_of_step {fuel : Nat} (h : s.step? g = some next) :
    run g (fuel + 1) s = run g fuel next := by
  simp [run, h]

theorem run_of_done {fuel : Nat} (h : s.step? g = none) : run g fuel s = s := by
  cases fuel with
  | zero => rfl
  | succ fuel => simp [run, h]

/-- A run goes step by step. -/
theorem reflTransGen_run (g : LiveGraph) (fuel : Nat) (s : Search) :
    ReflTransGen (fun s next => s.step? g = some next) s (run g fuel s) := by
  induction fuel generalizing s with
  | zero => exact ReflTransGen.refl
  | succ fuel ih =>
      cases hstep : s.step? g with
      | none => rw [run_of_done hstep]
      | some next =>
          rw [run_succ_of_step hstep]
          exact (ih next).head hstep

/-- What is kept from step to step is kept by a run. -/
theorem run_induction {holds : Search → Prop}
    (hstep : ∀ s next, holds s → s.step? g = some next → holds next) (fuel : Nat) (h : holds s) :
    holds (run g fuel s) := by
  have hrun := reflTransGen_run g fuel s
  generalize run g fuel s = last at hrun
  induction hrun with
  | refl => exact h
  | tail _ hlast ih => exact hstep _ _ ih hlast

/-- A run keeps the invariant. -/
theorem Invariant.run (h : Invariant g s) (fuel : Nat) : Invariant g (run g fuel s) :=
  run_induction (fun _ _ hs hstep => hs.step hstep) fuel h

/-- Enough steps bring the way to its end. -/
theorem Invariant.frames_run {fuel : Nat} (h : Invariant g s) (hfuel : cost g s ≤ fuel) :
    (Search.run g fuel s).frames = [] := by
  induction fuel generalizing s with
  | zero =>
      cases hframes : s.frames with
      | nil => exact hframes
      | cons frame below => simp [cost, hframes, wayCost] at hfuel
  | succ fuel ih =>
      cases hstep : s.step? g with
      | none =>
          rw [run_of_done hstep]
          exact (step?_eq_none_iff g s).1 hstep
      | some next =>
          rw [run_succ_of_step hstep]
          have hlt := cost_lt h.length_eq hstep
          exact ih (h.step hstep) (by omega)

/-- A slot that was met stays met. -/
theorem Invariant.met_step (h : Invariant g s) (hstep : s.step? g = some next) {slot : Nat}
    (hmet : (s.visit? slot).isSome = true) : (next.visit? slot).isSome = true := by
  rcases eq_of_step? hstep with ⟨origin, below, hframes, rfl⟩ | ⟨origin, target, pending, below,
    hframes, rfl⟩
  · rw [(sameWay_leave _ origin).2]
    exact hmet
  · rcases enter_or_sameWay_follow g { s with frames := ⟨origin, pending⟩ :: below } origin target
      with ⟨hlive, hvisit, heq⟩ | hsame
    · rw [heq, visit?_enter (by exact h.lt_length hlive)]
      split
      · rfl
      · exact hmet
    · rw [hsame.2]
      exact hmet

/-- A slot that was met stays met. -/
theorem Invariant.met_run (h : Invariant g s) (fuel : Nat) {slot : Nat}
    (hmet : (s.visit? slot).isSome = true) : ((Search.run g fuel s).visit? slot).isSome = true := by
  have hkeep : ∀ t next, Invariant g t ∧ (t.visit? slot).isSome = true →
      t.step? g = some next → Invariant g next ∧ (next.visit? slot).isSome = true :=
    fun t next ht hstep => ⟨ht.1.step hstep, ht.1.met_step hstep ht.2⟩
  exact (run_induction hkeep fuel ⟨h, hmet⟩).2

/-! ## Searching from the roots -/

/-- What is still to be met costs no more than the whole graph. -/
theorem freshCost_le_bound (g : LiveGraph) (s : Search) : freshCost g s ≤ g.bound := by
  have hfoldl : ∀ n, (List.range n).foldl
      (fun total slot => total + ((g.next slot).length + 2)) 0 =
        ∑ slot ∈ Finset.range n, ((g.next slot).length + 2) := by
    intro n
    induction n with
    | zero => simp
    | succ n ih =>
        rw [List.range_succ, List.foldl_append, ih, Finset.sum_range_succ]
        simp
  unfold LiveGraph.bound freshCost
  rw [hfoldl]
  exact Finset.sum_le_sum_of_subset (Finset.filter_subset _ _)

/-- What holds between two roots. -/
structure Between (g : LiveGraph) (s : Search) : Prop extends Invariant g s where
  frames_eq : s.frames = []

/-- Between two roots the slots that were met are the closed ones. -/
theorem Between.met_iff_closed (h : Between g s) {slot : Nat} :
    (s.visit? slot).isSome = true ↔ slot ∈ s.closed := by
  rw [h.met_iff, h.stack_eq_nil h.frames_eq, List.nil_append]

/-- A live root that was not met starts a way of its own. -/
theorem explore_of_fresh {root : Nat} (hlive : g.isLive root = true)
    (hfresh : s.visit? root = none) : explore g s root = run g g.bound (s.enter g root) := by
  simp [explore, hlive, hfresh]

/-- Any other root is passed over. -/
theorem explore_of_not_fresh {root : Nat} (h : ¬ (g.isLive root = true ∧ s.visit? root = none)) :
    explore g s root = s := by
  unfold explore
  rw [if_neg]
  simpa using h

/-- A fresh root starts a search that keeps the invariant. -/
theorem Between.enter (h : Between g s) {root : Nat} (hlive : g.isLive root = true)
    (hfresh : s.visit? root = none) : Invariant g (s.enter g root) := by
  have hnotMet : root ∉ s.stack ++ s.closed := by
    rw [← h.met_iff, hfresh]
    simp
  exact h.toInvariant.enter hlive hnotMet (by simp [way, h.frames_eq])

/-- The search of a root comes to its end. -/
theorem Between.explore (h : Between g s) (root : Nat) : Between g (explore g s root) := by
  by_cases hroot : g.isLive root = true ∧ s.visit? root = none
  · rcases hroot with ⟨hlive, hfresh⟩
    have hentered := h.enter hlive hfresh
    have hcost : cost g (s.enter g root) ≤ g.bound := by
      have hpaid := cost_enter hlive (h.lt_length hlive) hfresh
      have hbound := freshCost_le_bound g s
      have hway : cost g s = freshCost g s := by simp [cost, h.frames_eq, wayCost]
      omega
    rw [explore_of_fresh hlive hfresh]
    exact ⟨hentered.run g.bound, hentered.frames_run hcost⟩
  · rw [explore_of_not_fresh hroot]
    exact h

/-- After the search of a root, what was met before is still met, and so is a live root. -/
theorem Between.met_explore (h : Between g s) {root slot : Nat}
    (hslot : (s.visit? slot).isSome = true ∨ slot = root ∧ g.isLive root = true) :
    ((Search.explore g s root).visit? slot).isSome = true := by
  by_cases hroot : g.isLive root = true ∧ s.visit? root = none
  · rcases hroot with ⟨hlive, hfresh⟩
    rw [explore_of_fresh hlive hfresh]
    refine (h.enter hlive hfresh).met_run g.bound ?_
    rw [visit?_enter (h.lt_length hlive)]
    split
    · rfl
    · rename_i hne
      exact hslot.resolve_right fun heq => hne heq.1
  · rw [explore_of_not_fresh hroot]
    rcases hslot with hmet | ⟨rfl, hlive⟩
    · exact hmet
    · rw [Option.isSome_iff_ne_none]
      exact fun hfresh => hroot ⟨hlive, hfresh⟩

end Search

/-! ## The components and the cycles -/

namespace LiveGraph

variable (g : LiveGraph)

theorem searched_succ (count : Nat) :
    g.searched (count + 1) = Search.explore g (g.searched count) count := by
  simp [searched, List.range_succ]

/-- After any number of roots the way is at its end. -/
theorem between_searched (count : Nat) : Search.Between g (g.searched count) := by
  induction count with
  | zero => exact ⟨Search.invariant_start g, rfl⟩
  | succ count ih =>
      rw [searched_succ]
      exact ih.explore count

/-- Every live slot below the count has been met. -/
theorem met_searched {count slot : Nat} (hlt : slot < count) (hlive : g.isLive slot = true) :
    ((g.searched count).visit? slot).isSome = true := by
  induction count with
  | zero => cases hlt
  | succ count ih =>
      rw [searched_succ]
      refine (between_searched g count).met_explore ?_
      rcases Nat.lt_succ_iff_lt_or_eq.1 hlt with hlt | rfl
      · exact Or.inl (ih hlt)
      · exact Or.inr ⟨rfl, hlive⟩

/-- The components hold exactly the live slots. -/
theorem mem_flatten_components_iff (slot : Nat) :
    slot ∈ g.components.flatten ↔ g.isLive slot = true := by
  have hbetween := between_searched g g.live.length
  constructor
  · intro hslot
    exact hbetween.live slot (List.mem_append_right _ hslot)
  · intro hlive
    exact hbetween.met_iff_closed.1 (met_searched g (Search.lt_of_isLive hlive) hlive)

/-- No slot belongs to two components or twice to one. -/
theorem nodup_flatten_components : g.components.flatten.Nodup :=
  (List.nodup_append.1 (between_searched g g.live.length).nodup).2.1

/-- A component holds exactly the slots that reach its members and are reached by
them. -/
theorem mem_component_iff {component : List Nat} (h : component ∈ g.components) {a : Nat}
    (ha : a ∈ component) (b : Nat) :
    b ∈ component ↔ ReflTransGen g.Edge a b ∧ ReflTransGen g.Edge b a :=
  (between_searched g g.live.length).component component h a ha b

variable {g}

/-- A slot of a cyclic component reaches itself. -/
theorem transGen_of_isCyclic {component : List Nat} (h : component ∈ g.components)
    (hcyclic : g.isCyclic component = true) {slot : Nat} (hslot : slot ∈ component) :
    TransGen g.Edge slot slot := by
  have hnodup : component.Nodup :=
    (List.nodup_flatten.1 (nodup_flatten_components g)).1 component h
  by_cases hother : ∃ other ∈ component, other ≠ slot
  · rcases hother with ⟨other, hmem, hne⟩
    rcases (mem_component_iff g h hslot other).1 hmem with ⟨hto, hback⟩
    rcases reflTransGen_iff_eq_or_transGen.1 hto with heq | hto
    · exact absurd heq hne
    · exact hto.trans_left hback
  · have hsingle : ∀ other ∈ component, other = slot := by
      intro other hmem
      by_contra hne
      exact hother ⟨other, hmem, hne⟩
    have heq : component = [slot] := by
      rw [List.eq_replicate_of_mem hsingle] at hnodup hslot ⊢
      have hle := List.nodup_replicate.1 hnodup
      have hpos : component.length ≠ 0 := by
        intro hzero
        simp [hzero] at hslot
      have hone : component.length = 1 := by omega
      rw [hone]
      rfl
    rw [heq] at hcyclic
    have hlive : g.isLive slot = true :=
      (mem_flatten_components_iff g slot).1 (List.mem_flatten.2 ⟨component, h, hslot⟩)
    have hloop : slot ∈ g.next slot := by simpa [isCyclic] using hcyclic
    exact TransGen.single ⟨hlive, hlive, hloop⟩

/-- A component with a slot that reaches itself is cyclic. -/
theorem isCyclic_of_transGen {component : List Nat} (h : component ∈ g.components)
    {slot : Nat} (hslot : slot ∈ component) (hcycle : TransGen g.Edge slot slot) :
    g.isCyclic component = true := by
  rcases TransGen.head'_iff.1 hcycle with ⟨other, hedge, hback⟩
  have hother : other ∈ component :=
    (mem_component_iff g h hslot other).2 ⟨ReflTransGen.single hedge, hback⟩
  unfold isCyclic
  rw [Bool.or_eq_true, decide_eq_true_eq]
  by_cases heq : other = slot
  · subst heq
    right
    exact List.any_eq_true.2 ⟨other, hslot, by simpa using hedge.2.2⟩
  · left
    have hsubset : [slot, other] ⊆ component := by
      intro x hx
      simp only [List.mem_cons, List.not_mem_nil, or_false] at hx
      rcases hx with rfl | rfl
      · exact hslot
      · exact hother
    have hnodup : [slot, other].Nodup := by simpa using fun hcontra => heq hcontra.symm
    exact List.Nodup.length_le_of_subset hnodup hsubset

/-- The search marks exactly the slots that reach themselves along live edges. -/
theorem mem_cycleSlots_iff (slot : Nat) :
    slot ∈ g.cycleSlots ↔ TransGen g.Edge slot slot := by
  constructor
  · intro hmem
    rcases List.mem_flatten.1 hmem with ⟨component, hcomponent, hslot⟩
    rcases List.mem_filter.1 hcomponent with ⟨hcomponent, hcyclic⟩
    exact transGen_of_isCyclic hcomponent hcyclic hslot
  · intro hcycle
    rcases TransGen.head'_iff.1 hcycle with ⟨other, hedge, -⟩
    rcases List.mem_flatten.1 ((mem_flatten_components_iff g slot).2 hedge.1) with
      ⟨component, hcomponent, hslot⟩
    have hcyclic := isCyclic_of_transGen hcomponent hslot hcycle
    exact List.mem_flatten.2 ⟨component, List.mem_filter.2 ⟨hcomponent, hcyclic⟩, hslot⟩

/-- Each live slot belongs to the component at exactly one place. -/
theorem existsUnique_place {slot : Nat} (hlive : g.isLive slot = true) :
    ∃! place : Nat, ∃ component, g.components[place]? = some component ∧ slot ∈ component := by
  rcases List.mem_flatten.1 ((mem_flatten_components_iff g slot).2 hlive) with
    ⟨component, hcomponent, hslot⟩
  rcases List.mem_iff_getElem?.1 hcomponent with ⟨place, hplace⟩
  refine ⟨place, ⟨component, hplace, hslot⟩, ?_⟩
  rintro other ⟨rival, hother, hrival⟩
  have hdisjoint := List.pairwise_iff_getElem.1
    (List.nodup_flatten.1 (nodup_flatten_components g)).2
  rcases List.getElem?_eq_some_iff.1 hplace with ⟨hlt, rfl⟩
  rcases List.getElem?_eq_some_iff.1 hother with ⟨hltOther, rfl⟩
  rcases Nat.lt_trichotomy other place with hbefore | heq | hafter
  · exact absurd hslot (hdisjoint other place hltOther hlt hbefore hrival)
  · exact heq
  · exact absurd hrival (hdisjoint place other hlt hltOther hafter hslot)

/-- The search ends step by step at every live root that was not met, each time with nothing
left on the way or on the stack.  In the end each live slot is in one component, once, no
other slot is in any, and the slots marked are those that a chain of live edges leads from
back to themselves. -/
theorem search_marks_cycles (g : LiveGraph) :
    (∀ root, g.isLive root = true → (g.searched root).visit? root = none →
      ReflTransGen (fun s next => s.step? g = some next) ((g.searched root).enter g root)
        (g.searched (root + 1))) ∧
      (∀ count, (g.searched count).step? g = none ∧ (g.searched count).stack = []) ∧
      (∀ slot, g.isLive slot = true → ∃! place : Nat, ∃ component,
        g.components[place]? = some component ∧ slot ∈ component) ∧
      g.components.flatten.Nodup ∧
      (∀ slot, slot ∈ g.components.flatten ↔ g.isLive slot = true) ∧
      ∀ slot, slot ∈ g.cycleSlots ↔ TransGen g.Edge slot slot := by
  refine ⟨?_, ?_, fun slot => existsUnique_place, nodup_flatten_components g,
    mem_flatten_components_iff g, mem_cycleSlots_iff⟩
  · intro root hlive hfresh
    rw [searched_succ, Search.explore_of_fresh hlive hfresh]
    exact Search.reflTransGen_run g g.bound _
  · intro count
    have hbetween := between_searched g count
    exact ⟨(Search.step?_eq_none_iff g _).2 hbetween.frames_eq,
      hbetween.stack_eq_nil hbetween.frames_eq⟩

end LiveGraph

end TriggerGraph
