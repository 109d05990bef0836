/-!
# Strong components by low links

The search goes depth first along edges between live slots.  A slot that it meets gets
the next index and joins a stack.  Its low link is the least index of a slot on the
stack that it is known to reach; a slot whose edges are all followed passes its low link
on to the slot that it was met from.  When the low link is still the index of the slot
itself, the slot and all that joined the stack after it are a strong component and leave
the stack.

Main results:

- Theorem `step?_eq_none_iff`: the search of one root is done when no slot is on the way.
- Theorems `visit?_enter`, `visit?_lower` and `visit?_cut`: what is known of a slot after
  it was met, lowered or taken off the stack.
- Theorem `popThrough_append`: what is taken off the stack with a slot.
-/

namespace TriggerGraph

/-- What is known of a slot that the search has met. -/
structure Visit where
  /-- How many slots were met before. -/
  index : Nat
  /-- The least index of a slot on the stack that is known to be reached. -/
  lowLink : Nat
  onStack : Bool
deriving DecidableEq

/-- A slot on the way from the root, with the edges out of it not yet followed. -/
structure Frame where
  slot : Nat
  pending : List Nat
deriving DecidableEq

/-- The state of the search. -/
structure Search where
  /-- For every slot, what is known of it once it is met. -/
  visits : List (Option Visit)
  nextIndex : Nat
  /-- The slots met whose components are not known yet, latest first. -/
  stack : List Nat
  /-- The way from the root, deepest slot first. -/
  frames : List Frame
  /-- The components that left the stack, latest first. -/
  components : List (List Nat)
deriving DecidableEq

/-- A graph on slots of which some are live. -/
structure LiveGraph where
  live : List Bool
  successors : List (List Nat)
deriving DecidableEq

namespace LiveGraph

/-- Whether a slot takes part. -/
def isLive (g : LiveGraph) (slot : Nat) : Bool := g.live.getD slot false

/-- The slots that edges out of a slot lead to. -/
def next (g : LiveGraph) (slot : Nat) : List Nat := g.successors.getD slot []

/-- An edge between live slots. -/
def Edge (g : LiveGraph) (a b : Nat) : Prop :=
  g.isLive a = true ∧ g.isLive b = true ∧ b ∈ g.next a

/-- The most steps that a search takes: each slot is met and left once and each edge is
followed once. -/
def bound (g : LiveGraph) : Nat :=
  (List.range g.live.length).foldl (fun total slot => total + ((g.next slot).length + 2)) 0

end LiveGraph

namespace Visit

/-- A slot with this index is reached as well. -/
def lowered (visit : Visit) (index : Nat) : Visit :=
  { visit with lowLink := min visit.lowLink index }

/-- The slot leaves the stack. -/
def popped (visit : Visit) : Visit := { visit with onStack := false }

end Visit

namespace Search

/-- The search before the first root. -/
def start (size : Nat) : Search := ⟨List.replicate size none, 0, [], [], []⟩

/-- What is known of a slot, if it was met. -/
def visit? (s : Search) (slot : Nat) : Option Visit := s.visits.getD slot none

/-- Meets a slot. -/
def enter (g : LiveGraph) (s : Search) (slot : Nat) : Search :=
  { s with
    visits := s.visits.set slot (some ⟨s.nextIndex, s.nextIndex, true⟩)
    nextIndex := s.nextIndex + 1
    stack := slot :: s.stack
    frames := ⟨slot, g.next slot⟩ :: s.frames }

/-- Lowers the low link of a slot to an index that it reaches. -/
def lower (s : Search) (slot index : Nat) : Search :=
  { s with visits := s.visits.modify slot (Option.map fun visit => visit.lowered index) }

/-- A stack down to and including a slot, and what remains of it. -/
def popThrough (slot : Nat) : List Nat → List Nat × List Nat
  | [] => ([], [])
  | member :: rest =>
    if member = slot then ([member], rest)
    else (member :: (popThrough slot rest).1, (popThrough slot rest).2)

/-- Takes the component of a slot off the stack. -/
def cut (s : Search) (slot : Nat) : Search :=
  let (members, rest) := popThrough slot s.stack
  { s with
    visits := members.foldl (fun visits member => visits.modify member (Option.map Visit.popped))
      s.visits
    stack := rest
    components := members :: s.components }

/-- Follows an edge from one slot to another. -/
def follow (g : LiveGraph) (s : Search) (slot target : Nat) : Search :=
  if !g.isLive target then s
  else match s.visit? target with
    | none => s.enter g target
    | some visit => if visit.onStack then s.lower slot visit.index else s

/-- Passes the low link of a slot on to the deepest slot on the way. -/
def passOn (s : Search) (lowLink : Nat) : Search :=
  match s.frames with
  | [] => s
  | parent :: _ => s.lower parent.slot lowLink

/-- Leaves a slot all of whose edges are followed. -/
def leave (s : Search) (slot : Nat) : Search :=
  match s.visit? slot with
  | none => s
  | some visit =>
    let passed := s.passOn visit.lowLink
    if visit.lowLink = visit.index then passed.cut slot else passed

/-- Follows one edge out of the deepest slot on the way, or leaves the slot. -/
def step? (g : LiveGraph) (s : Search) : Option Search :=
  match s.frames with
  | [] => none
  | ⟨slot, pending⟩ :: below => some <| match pending with
    | [] => { s with frames := below }.leave slot
    | target :: pending => { s with frames := ⟨slot, pending⟩ :: below }.follow g slot target

/-- Takes at most `fuel` steps. -/
def run (g : LiveGraph) : Nat → Search → Search
  | 0, s => s
  | fuel + 1, s => match s.step? g with
    | none => s
    | some next => run g fuel next

/-- Searches from a live slot that was not met yet. -/
def explore (g : LiveGraph) (s : Search) (root : Nat) : Search :=
  if g.isLive root && (s.visit? root).isNone then run g g.bound (s.enter g root) else s

/-- The search of a single root is done when no slot is on the way. -/
theorem step?_eq_none_iff (g : LiveGraph) (s : Search) : s.step? g = none ↔ s.frames = [] := by
  unfold step?
  split <;> simp_all

/-- A step leaves the deepest slot on the way or follows an edge out of it. -/
theorem eq_of_step? {g : LiveGraph} {s next : Search} (h : s.step? g = some next) :
    (∃ slot below, s.frames = ⟨slot, []⟩ :: below ∧
      next = { s with frames := below }.leave slot) ∨
    ∃ slot target pending below, s.frames = ⟨slot, target :: pending⟩ :: below ∧
      next = { s with frames := ⟨slot, pending⟩ :: below }.follow g slot target := by
  unfold step? at h
  split at h
  · cases h
  · rename_i slot pending below hframes
    cases pending with
    | nil => exact Or.inl ⟨slot, below, hframes, (Option.some.inj h).symm⟩
    | cons target pending =>
        exact Or.inr ⟨slot, target, pending, below, hframes, (Option.some.inj h).symm⟩

/-! ## What is known of a slot -/

theorem visit?_start (size slot : Nat) : (start size).visit? slot = none := by
  by_cases hlt : slot < size <;> simp [start, visit?, List.getD_eq_getElem?_getD, hlt]

/-- A slot that is met gets the next index. -/
theorem visit?_enter {g : LiveGraph} {s : Search} {slot : Nat} (h : slot < s.visits.length)
    (other : Nat) :
    (s.enter g slot).visit? other =
      if other = slot then some ⟨s.nextIndex, s.nextIndex, true⟩ else s.visit? other := by
  unfold enter visit?
  rw [List.getD_eq_getElem?_getD, List.getElem?_set]
  by_cases hother : other = slot
  · simp [hother, h]
  · have hne : ¬ slot = other := fun heq => hother heq.symm
    simp [hother, hne, List.getD_eq_getElem?_getD]

theorem getD_modify {visits : List (Option Visit)} {f : Visit → Visit} (slot other : Nat) :
    (visits.modify slot (Option.map f)).getD other none =
      if other = slot then (visits.getD other none).map f else visits.getD other none := by
  rw [List.getD_eq_getElem?_getD, List.getD_eq_getElem?_getD, List.getElem?_modify]
  by_cases hother : other = slot
  · subst hother
    cases visits[other]? <;> simp
  · have hne : ¬ slot = other := fun heq => hother heq.symm
    simp [hother, hne]

/-- Lowering touches the low link of one slot. -/
theorem visit?_lower (s : Search) (slot index other : Nat) :
    (s.lower slot index).visit? other =
      if other = slot then (s.visit? other).map fun visit => visit.lowered index
      else s.visit? other :=
  getD_modify slot other

/-- What is taken off the stack with a slot: all that joined it later. -/
theorem popThrough_append {slot : Nat} {front : List Nat} (h : slot ∉ front) (rest : List Nat) :
    popThrough slot (front ++ slot :: rest) = (front ++ [slot], rest) := by
  induction front with
  | nil => simp [popThrough]
  | cons head front ih =>
      rw [List.mem_cons, not_or] at h
      have hne : ¬ head = slot := fun heq => h.1 heq.symm
      simp [popThrough, hne, ih h.2]

/-- Only what is known of the members changes when a component leaves the stack. -/
theorem visit?_cut (s : Search) (slot other : Nat) :
    (s.cut slot).visit? other =
      if other ∈ (popThrough slot s.stack).1 then (s.visit? other).map Visit.popped
      else s.visit? other := by
  have hfold : ∀ (members : List Nat) (visits : List (Option Visit)),
      (members.foldl (fun visits member => visits.modify member (Option.map Visit.popped))
        visits).getD other none =
        if other ∈ members then (visits.getD other none).map Visit.popped
        else visits.getD other none := by
    intro members
    induction members with
    | nil => simp
    | cons member members ih =>
        intro visits
        rw [List.foldl_cons, ih, getD_modify]
        by_cases hother : other = member
        · subst hother
          cases visits.getD other none <;> simp [Visit.popped]
        · simp [hother]
  exact hfold _ s.visits

end Search

namespace LiveGraph

/-- The search after all roots below `count`. -/
def searched (g : LiveGraph) (count : Nat) : Search :=
  (List.range count).foldl (Search.explore g) (Search.start g.live.length)

/-- The strong components of the live slots. -/
def components (g : LiveGraph) : List (List Nat) := (g.searched g.live.length).components

/-- Whether a component holds a cycle: more than one slot, or one that feeds itself. -/
def isCyclic (g : LiveGraph) (component : List Nat) : Bool :=
  1 < component.length || component.any fun slot => (g.next slot).contains slot

/-- The slots on cycles. -/
def cycleSlots (g : LiveGraph) : List Nat := (g.components.filter g.isCyclic).flatten

end LiveGraph

end TriggerGraph
