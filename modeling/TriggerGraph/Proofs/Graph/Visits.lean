import Mathlib.Tactic.ByContra
import Mathlib.Tactic.Tauto
import TriggerGraph.Graph.Components

/-!
# What the component search has met

What is known of the slots, the stack, the way from the root and the closed components
describe one another: the slots met are those on the stack or closed, the stack holds
them by descending index, and the way from the root is a part of the stack.

Main results:

- Theorems `Consistent.enter`, `Consistent.lower`, `Consistent.withFrames` and
  `Consistent.cut`: no operation of the search breaks this.
- Theorem `Consistent.mem_top_iff`: what stands on the stack from a slot upward is what
  has at least its index.
-/

namespace TriggerGraph

namespace Search

/-! ## Views of a search -/

/-- The index of a slot that was met. -/
def indexAt (s : Search) (slot : Nat) : Nat := (s.visit? slot).elim 0 Visit.index

/-- The low link of a slot that was met. -/
def lowAt (s : Search) (slot : Nat) : Nat := (s.visit? slot).elim 0 Visit.lowLink

/-- Whether a slot is known to be on the stack. -/
def isStacked (s : Search) (slot : Nat) : Bool := (s.visit? slot).any Visit.onStack

/-- The slots of components that left the stack. -/
def closed (s : Search) : List Nat := s.components.flatten

/-- The slots on the way from the root, deepest first. -/
def way (s : Search) : List Nat := s.frames.map Frame.slot

/-- An edge out of a slot on the way that is not yet followed. -/
def Pending (s : Search) (a b : Nat) : Prop :=
  ∃ frame ∈ s.frames, frame.slot = a ∧ b ∈ frame.pending

variable {g : LiveGraph} {s : Search}

section Enter

variable {slot : Nat} (h : slot < s.visits.length) (other : Nat)

include h

/-- Entering a slot gives it the next index and leaves the other indices alone. -/
theorem indexAt_enter :
    (s.enter g slot).indexAt other = if other = slot then s.nextIndex else s.indexAt other := by
  unfold indexAt
  rw [visit?_enter h]
  split <;> rfl

theorem indexAt_enter_self : (s.enter g slot).indexAt slot = s.nextIndex := by
  rw [indexAt_enter h, if_pos rfl]

/-- A slot that is entered starts with its index for a low link. -/
theorem lowAt_enter :
    (s.enter g slot).lowAt other = if other = slot then s.nextIndex else s.lowAt other := by
  unfold lowAt
  rw [visit?_enter h]
  split <;> rfl

theorem lowAt_enter_self : (s.enter g slot).lowAt slot = s.nextIndex := by
  rw [lowAt_enter h, if_pos rfl]

/-- A slot that is entered is on the stack. -/
theorem isStacked_enter :
    (s.enter g slot).isStacked other = if other = slot then true else s.isStacked other := by
  unfold isStacked
  rw [visit?_enter h]
  split <;> rfl

end Enter

section Lower

variable (s) (slot index other : Nat)

@[simp] theorem indexAt_lower : (s.lower slot index).indexAt other = s.indexAt other := by
  unfold indexAt
  rw [visit?_lower]
  split
  · cases s.visit? other <;> rfl
  · rfl

@[simp] theorem isStacked_lower : (s.lower slot index).isStacked other = s.isStacked other := by
  unfold isStacked
  rw [visit?_lower]
  split
  · cases s.visit? other <;> rfl
  · rfl

@[simp] theorem isSome_visit?_lower :
    ((s.lower slot index).visit? other).isSome = (s.visit? other).isSome := by
  rw [visit?_lower]
  split
  · exact Option.isSome_map
  · rfl

/-- Lowering a low link raises none. -/
theorem lowAt_lower_le : (s.lower slot index).lowAt other ≤ s.lowAt other := by
  unfold lowAt
  rw [visit?_lower]
  split
  · cases s.visit? other with
    | none => exact Nat.le_refl 0
    | some visit => exact Nat.min_le_left visit.lowLink index
  · exact Nat.le_refl _

theorem lowAt_lower_of_ne (h : other ≠ slot) :
    (s.lower slot index).lowAt other = s.lowAt other := by
  unfold lowAt
  rw [visit?_lower, if_neg h]

variable {s} {slot}

/-- A low link is lowered to the given index unless it is below that already. -/
theorem lowAt_lower_self (h : (s.visit? slot).isSome = true) :
    (s.lower slot index).lowAt slot = min (s.lowAt slot) index := by
  unfold lowAt
  rw [visit?_lower, if_pos rfl]
  rcases Option.isSome_iff_exists.1 h with ⟨visit, hvisit⟩
  rw [hvisit]
  rfl

end Lower

section Cut

variable (s) (slot other : Nat)

@[simp] theorem indexAt_cut : (s.cut slot).indexAt other = s.indexAt other := by
  unfold indexAt
  rw [visit?_cut]
  split
  · cases s.visit? other <;> rfl
  · rfl

@[simp] theorem lowAt_cut : (s.cut slot).lowAt other = s.lowAt other := by
  unfold lowAt
  rw [visit?_cut]
  split
  · cases s.visit? other <;> rfl
  · rfl

@[simp] theorem isSome_visit?_cut :
    ((s.cut slot).visit? other).isSome = (s.visit? other).isSome := by
  rw [visit?_cut]
  split
  · exact Option.isSome_map
  · rfl

theorem length_visits_cut : (s.cut slot).visits.length = s.visits.length := by
  have hfold : ∀ (members : List Nat) (visits : List (Option Visit)),
      (members.foldl (fun visits member => visits.modify member (Option.map Visit.popped))
        visits).length = visits.length := by
    intro members
    induction members with
    | nil => intro visits; rfl
    | cons member members ih => intro visits; rw [List.foldl_cons, ih, List.length_modify]
  exact hfold _ s.visits

/-- After a cut the slots that were popped are on the stack no more. -/
theorem isStacked_cut :
    (s.cut slot).isStacked other =
      if other ∈ (popThrough slot s.stack).1 then false else s.isStacked other := by
  unfold isStacked
  rw [visit?_cut]
  split
  · cases s.visit? other <;> rfl
  · rfl

end Cut

/-! ## Consistency -/

/-- What is known of the slots agrees with where they are kept. -/
structure Consistent (g : LiveGraph) (s : Search) : Prop where
  length_eq : s.visits.length = g.live.length
  met_iff : ∀ slot, (s.visit? slot).isSome = true ↔ slot ∈ s.stack ++ s.closed
  stacked_iff : ∀ slot, s.isStacked slot = true ↔ slot ∈ s.stack
  live : ∀ slot ∈ s.stack ++ s.closed, g.isLive slot = true
  nodup : (s.stack ++ s.closed).Nodup
  index_lt : ∀ slot ∈ s.stack, s.indexAt slot < s.nextIndex
  descending : s.stack.Pairwise fun late early => s.indexAt early < s.indexAt late
  way_sublist : s.way.Sublist s.stack
  next_of_pending : ∀ a b, s.Pending a b → b ∈ g.next a

theorem lt_of_isLive {slot : Nat} (h : g.isLive slot = true) : slot < g.live.length := by
  by_contra hlt
  simp [LiveGraph.isLive, List.getD_eq_getElem?_getD,
    List.getElem?_eq_none (Nat.le_of_not_lt hlt)] at h

theorem consistent_start (g : LiveGraph) : Consistent g (start g.live.length) := by
  refine ⟨by simp [start], ?_, ?_, ?_, ?_, ?_, ?_, ?_, ?_⟩
  · intro slot
    rw [visit?_start]
    simp [start, closed]
  · intro slot
    unfold isStacked
    rw [visit?_start]
    simp [start]
  all_goals simp [start, closed, way, Pending]

namespace Consistent

theorem mem_stack_of_way (h : Consistent g s) {slot : Nat} (hslot : slot ∈ s.way) :
    slot ∈ s.stack :=
  h.way_sublist.subset hslot

theorem not_mem_closed (h : Consistent g s) {slot : Nat} (hslot : slot ∈ s.stack) :
    slot ∉ s.closed := by
  intro hclosed
  exact (List.nodup_append.1 h.nodup).2.2 slot hslot slot hclosed rfl

/-- The deepest slot on the way has the greatest index of them. -/
theorem index_lt_of_below (h : Consistent g s) {frame : Frame} {below : List Frame}
    (hframes : s.frames = frame :: below) {other : Nat}
    (hother : other ∈ below.map Frame.slot) : s.indexAt other < s.indexAt frame.slot := by
  have hway := h.descending.sublist h.way_sublist
  rw [way, hframes, List.map_cons] at hway
  exact (List.pairwise_cons.1 hway).1 other hother

/-- The slot on top of the way has the greatest index there. -/
theorem index_le_of_way (h : Consistent g s) {frame : Frame} {below : List Frame}
    (hframes : s.frames = frame :: below) {other : Nat} (hother : other ∈ s.way) :
    s.indexAt other ≤ s.indexAt frame.slot := by
  rw [way, hframes, List.map_cons] at hother
  rcases List.mem_cons.1 hother with rfl | hother
  · exact Nat.le_refl _
  · exact Nat.le_of_lt (h.index_lt_of_below hframes hother)

/-! ## Meeting a slot -/

section Enter

variable {slot other : Nat}

/-- A live slot has its place among the visits. -/
theorem lt_length (h : Consistent g s) (hlive : g.isLive slot = true) :
    slot < s.visits.length := by
  rw [h.length_eq]
  exact lt_of_isLive hlive

/-- What stands on the stack keeps its index when another slot is met. -/
theorem indexAt_enter_of_mem (h : Consistent g s) (hlive : g.isLive slot = true)
    (hfresh : slot ∉ s.stack ++ s.closed) (hmem : other ∈ s.stack) :
    (s.enter g slot).indexAt other = s.indexAt other := by
  rw [indexAt_enter (h.lt_length hlive), if_neg]
  rintro rfl
  exact hfresh (List.mem_append_left _ hmem)

/-- What stands on the stack keeps its low link when another slot is met. -/
theorem lowAt_enter_of_mem (h : Consistent g s) (hlive : g.isLive slot = true)
    (hfresh : slot ∉ s.stack ++ s.closed) (hmem : other ∈ s.stack) :
    (s.enter g slot).lowAt other = s.lowAt other := by
  rw [lowAt_enter (h.lt_length hlive), if_neg]
  rintro rfl
  exact hfresh (List.mem_append_left _ hmem)

end Enter

/-- A slot that is not yet met joins the stack and the way. -/
theorem enter (h : Consistent g s) {slot : Nat} (hlive : g.isLive slot = true)
    (hfresh : slot ∉ s.stack ++ s.closed) : Consistent g (s.enter g slot) := by
  have hlt := h.lt_length hlive
  refine ⟨?length_eq, ?met_iff, ?stacked_iff, ?live, ?nodup, ?index_lt, ?descending, ?way_sublist,
    ?next_of_pending⟩
  case length_eq =>
    simpa [Search.enter] using h.length_eq
  case met_iff =>
    intro other
    rw [visit?_enter hlt]
    by_cases heq : other = slot
    · simp [heq, Search.enter]
    · simpa [heq, Search.enter, closed] using h.met_iff other
  case stacked_iff =>
    intro other
    rw [isStacked_enter hlt]
    by_cases heq : other = slot
    · simp [heq, Search.enter]
    · simpa [heq, Search.enter] using h.stacked_iff other
  case live =>
    intro other hmem
    rcases List.mem_cons.1 hmem with rfl | hmem
    · exact hlive
    · exact h.live other hmem
  case nodup =>
    exact List.nodup_cons.2 ⟨hfresh, h.nodup⟩
  case index_lt =>
    intro other hmem
    rcases List.mem_cons.1 hmem with rfl | hmem
    · rw [indexAt_enter_self hlt]
      exact Nat.lt_succ_self _
    · rw [h.indexAt_enter_of_mem hlive hfresh hmem]
      exact Nat.lt_succ_of_lt (h.index_lt other hmem)
  case descending =>
    refine List.pairwise_cons.2 ⟨?_, ?_⟩
    · intro other hmem
      rw [h.indexAt_enter_of_mem hlive hfresh hmem, indexAt_enter_self hlt]
      exact h.index_lt other hmem
    · refine h.descending.imp_of_mem ?_
      intro late early hlate hearly hindex
      rw [h.indexAt_enter_of_mem hlive hfresh hlate,
        h.indexAt_enter_of_mem hlive hfresh hearly]
      exact hindex
  case way_sublist =>
    exact h.way_sublist.cons_cons slot
  case next_of_pending =>
    rintro a b ⟨frame, hframe, rfl, hb⟩
    rcases List.mem_cons.1 hframe with rfl | hframe
    · exact hb
    · exact h.next_of_pending _ _ ⟨frame, hframe, rfl, hb⟩

theorem lower (h : Consistent g s) (slot index : Nat) : Consistent g (s.lower slot index) := by
  refine ⟨?length_eq, ?met_iff, ?stacked_iff, h.live, h.nodup, ?index_lt, ?descending,
    h.way_sublist, h.next_of_pending⟩
  case length_eq =>
    simpa [Search.lower] using h.length_eq
  case met_iff =>
    intro other
    rw [isSome_visit?_lower]
    exact h.met_iff other
  case stacked_iff =>
    intro other
    rw [isStacked_lower]
    exact h.stacked_iff other
  case index_lt =>
    intro other hmem
    rw [indexAt_lower]
    exact h.index_lt other hmem
  case descending =>
    simp only [indexAt_lower]
    exact h.descending

/-- The way may be told otherwise as long as it goes along the stack. -/
theorem withFrames (h : Consistent g s) {frames : List Frame}
    (hway : (frames.map Frame.slot).Sublist s.stack)
    (hpending : ∀ frame ∈ frames, ∀ b ∈ frame.pending, b ∈ g.next frame.slot) :
    Consistent g { s with frames := frames } := by
  refine ⟨h.length_eq, h.met_iff, h.stacked_iff, h.live, h.nodup, h.index_lt, h.descending,
    hway, ?_⟩
  rintro a b ⟨frame, hframe, rfl, hb⟩
  exact hpending frame hframe b hb

/-- The deepest slot on the way may be left. -/
theorem below (h : Consistent g s) {frame : Frame} {below : List Frame}
    (hframes : s.frames = frame :: below) : Consistent g { s with frames := below } := by
  refine h.withFrames ?_ ?_
  · have hway := h.way_sublist
    rw [way, hframes, List.map_cons] at hway
    exact (List.sublist_cons_self frame.slot _).trans hway
  · intro other hother b hb
    exact h.next_of_pending _ _ ⟨other, by simp [hframes, hother], rfl, hb⟩

/-! ## Taking a component off the stack -/

variable {slot : Nat} {front rest : List Nat}

/-- From a slot of the stack upward stand the slots of at least its index. -/
theorem mem_top_iff (h : Consistent g s) (hstack : s.stack = front ++ slot :: rest)
    {other : Nat} :
    other ∈ front ++ [slot] ↔ other ∈ s.stack ∧ s.indexAt slot ≤ s.indexAt other := by
  have hdescending := h.descending
  rw [hstack] at hdescending
  rcases List.pairwise_append.1 hdescending with ⟨-, hback, hacross⟩
  have hfront : ∀ a ∈ front, s.indexAt slot < s.indexAt a :=
    fun a ha => hacross a ha slot List.mem_cons_self
  have hrest : ∀ a ∈ rest, s.indexAt a < s.indexAt slot := (List.pairwise_cons.1 hback).1
  constructor
  · intro hmem
    rcases List.mem_append.1 hmem with hmem | hmem
    · exact ⟨by simp [hstack, hmem], Nat.le_of_lt (hfront other hmem)⟩
    · rw [List.mem_singleton.1 hmem]
      exact ⟨by simp [hstack], Nat.le_refl _⟩
  · rintro ⟨hmem, hle⟩
    rw [hstack] at hmem
    rcases List.mem_append.1 hmem with hmem | hmem
    · exact List.mem_append_left _ hmem
    · rcases List.mem_cons.1 hmem with rfl | hmem
      · simp
      · exact absurd (hrest other hmem) (Nat.not_lt.2 hle)

/-- Below a slot of the stack lie the slots of a smaller index. -/
theorem mem_rest_iff (h : Consistent g s) (hstack : s.stack = front ++ slot :: rest)
    {other : Nat} :
    other ∈ rest ↔ other ∈ s.stack ∧ s.indexAt other < s.indexAt slot := by
  have hdescending := h.descending
  rw [hstack] at hdescending
  have hrest := (List.pairwise_cons.1 (List.pairwise_append.1 hdescending).2.1).1
  constructor
  · intro hmem
    exact ⟨by simp [hstack, hmem], hrest other hmem⟩
  · rintro ⟨hmem, hlt⟩
    have hnotTop : other ∉ front ++ [slot] := fun htop =>
      Nat.not_lt.2 ((h.mem_top_iff hstack).1 htop).2 hlt
    rw [hstack, List.append_cons] at hmem
    exact (List.mem_append.1 hmem).resolve_left hnotTop

/-- Popping through a slot takes it and what lies above it. -/
theorem popThrough_stack (h : Consistent g s) (hstack : s.stack = front ++ slot :: rest) :
    popThrough slot s.stack = (front ++ [slot], rest) := by
  have hnodup := (List.nodup_append.1 h.nodup).1
  rw [hstack] at hnodup ⊢
  refine popThrough_append ?_ rest
  intro hmem
  exact (List.nodup_append.1 hnodup).2.2 slot hmem slot List.mem_cons_self rfl

/-- A cut takes what lies above a slot, and the slot itself, for a component. -/
theorem cut_eq (h : Consistent g s) (hstack : s.stack = front ++ slot :: rest) :
    (s.cut slot).stack = rest ∧ (s.cut slot).components = (front ++ [slot]) :: s.components ∧
      (s.cut slot).frames = s.frames := by
  simp [Search.cut, h.popThrough_stack hstack]

/-- The rest of the way stands below the deepest slot on the stack. -/
theorem exists_split (h : Consistent g s) {pending : List Nat} {below : List Frame}
    (hframes : s.frames = ⟨slot, pending⟩ :: below) :
    ∃ front rest, s.stack = front ++ slot :: rest ∧ (below.map Frame.slot).Sublist rest := by
  have hway := h.way_sublist
  rw [way, hframes, List.map_cons, List.cons_sublist_iff] at hway
  rcases hway with ⟨upper, lower, hstack, hmem, hbelow⟩
  rcases List.append_of_mem hmem with ⟨front, between, rfl⟩
  refine ⟨front, between ++ lower, ?_, hbelow.trans (List.sublist_append_right between lower)⟩
  rw [hstack, List.append_assoc, List.cons_append]

/-- A cut moves slots from the stack to the closed ones and loses none. -/
theorem mem_visited_cut_iff (h : Consistent g s) (hstack : s.stack = front ++ slot :: rest)
    (other : Nat) :
    other ∈ (s.cut slot).stack ++ (s.cut slot).closed ↔ other ∈ s.stack ++ s.closed := by
  rcases h.cut_eq hstack with ⟨hrest, hcomponents, -⟩
  rw [closed, hrest, hcomponents, closed, hstack]
  simp only [List.flatten_cons, List.mem_append, List.mem_cons]
  tauto

/-- What stands on the stack from a slot upward may be taken off when the way stays below. -/
theorem cut (h : Consistent g s) (hstack : s.stack = front ++ slot :: rest)
    (hway : s.way.Sublist rest) : Consistent g (s.cut slot) := by
  rcases h.cut_eq hstack with ⟨hrest, hcomponents, hframes⟩
  have hvisited := h.mem_visited_cut_iff hstack
  have hsublist : rest.Sublist s.stack := by
    rw [hstack]
    exact (List.sublist_cons_self slot rest).trans (List.sublist_append_right front _)
  have hperm : (rest ++ ((front ++ [slot]) ++ s.closed)).Perm (s.stack ++ s.closed) := by
    rw [hstack, List.append_cons front slot rest, ← List.append_assoc]
    exact List.perm_append_comm.append_right s.closed
  refine ⟨?length_eq, ?met_iff, ?stacked_iff, ?live, ?nodup, ?index_lt, ?descending, ?way_sublist,
    ?next_of_pending⟩
  case length_eq =>
    rw [length_visits_cut]
    exact h.length_eq
  case met_iff =>
    intro other
    rw [isSome_visit?_cut, hvisited]
    exact h.met_iff other
  case stacked_iff =>
    intro other
    rw [isStacked_cut, h.popThrough_stack hstack, hrest, h.mem_rest_iff hstack]
    split
    · rename_i htop
      have hle := ((h.mem_top_iff hstack).1 htop).2
      simp [Nat.not_lt.2 hle]
    · rename_i htop
      rw [h.stacked_iff]
      refine ⟨fun hmem => ⟨hmem, ?_⟩, fun hmem => hmem.1⟩
      rw [← Nat.not_le]
      exact fun hle => htop ((h.mem_top_iff hstack).2 ⟨hmem, hle⟩)
  case live =>
    intro other hmem
    exact h.live other ((hvisited other).1 hmem)
  case nodup =>
    rw [closed, hrest, hcomponents, List.flatten_cons]
    exact hperm.nodup_iff.2 h.nodup
  case index_lt =>
    intro other hmem
    rw [hrest] at hmem
    rw [indexAt_cut]
    exact h.index_lt other (hsublist.subset hmem)
  case descending =>
    rw [hrest]
    simp only [indexAt_cut]
    exact h.descending.sublist hsublist
  case way_sublist =>
    rw [hrest, way, hframes]
    exact hway
  case next_of_pending =>
    rintro a b ⟨frame, hframe, hslot, hb⟩
    rw [hframes] at hframe
    exact h.next_of_pending a b ⟨frame, hframe, hslot, hb⟩

end Consistent

end Search

end TriggerGraph
