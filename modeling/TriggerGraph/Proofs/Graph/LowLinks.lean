import Mathlib.Logic.Relation
import Mathlib.Order.Lattice.Nat
import TriggerGraph.Proofs.Graph.Visits

/-!
# What the component search finds

A slot on the way leads to all that joined the stack after it.  A low link is the index
of a slot on the stack that is reached, and a slot that was left without being cut has a
low link below its index; hence everything on the stack leads back to the way.  An edge
that was followed to below a slot of the way has lowered a low link from there on.  So
nothing on the stack above a slot whose low link is its own index leads below it: that
is a strong component.

Main results:

- Theorems `Invariant.enter`, `Invariant.lower`, `Invariant.drop`, `Invariant.retreat` and
  `Invariant.cut`: what each operation of the search keeps.
- Theorem `Invariant.stack_eq_nil`: when the way is at its end, the stack is empty.
-/

namespace TriggerGraph

open Relation

namespace Search

/-- What holds between two steps of the search. -/
structure Invariant (g : LiveGraph) (s : Search) : Prop extends Consistent g s where
  low_le : ∀ a ∈ s.stack, s.lowAt a ≤ s.indexAt a
  /-- A slot left on the stack has a low link below its index. -/
  low_lt : ∀ a ∈ s.stack, a ∉ s.way → s.lowAt a < s.indexAt a
  /-- A low link is the index of a slot on the stack that is reached. -/
  reached : ∀ a ∈ s.stack, ∃ b ∈ s.stack, s.indexAt b = s.lowAt a ∧ ReflTransGen g.Edge a b
  /-- A slot on the way leads to all that joined the stack after it. -/
  leads : ∀ c ∈ s.way, ∀ a ∈ s.stack, s.indexAt c ≤ s.indexAt a → ReflTransGen g.Edge c a
  /-- An edge that is followed leads to a slot that was met. -/
  followed : ∀ a ∈ s.stack, ∀ b, g.Edge a b → s.Pending a b ∨ b ∈ s.stack ++ s.closed
  /-- An edge followed to below a slot of the way has lowered a low link from there on. -/
  accounted : ∀ c ∈ s.way, ∀ a ∈ s.stack, s.indexAt c ≤ s.indexAt a →
    ∀ b ∈ s.stack, s.indexAt b < s.indexAt c → g.Edge a b →
      s.Pending a b ∨ ∃ d ∈ s.way, s.indexAt c ≤ s.indexAt d ∧ s.lowAt d ≤ s.indexAt b
  /-- No edge leads out of what has left the stack. -/
  confined : ∀ a ∈ s.closed, ∀ b, g.Edge a b → b ∈ s.closed
  /-- What left the stack together is a strong component. -/
  component : ∀ c ∈ s.components, ∀ a ∈ c, ∀ b,
    b ∈ c ↔ ReflTransGen g.Edge a b ∧ ReflTransGen g.Edge b a

variable {g : LiveGraph} {s : Search}

/-- A search that has met nothing keeps the invariant. -/
theorem invariant_start (g : LiveGraph) : Invariant g (start g.live.length) := by
  refine ⟨consistent_start g, ?_, ?_, ?_, ?_, ?_, ?_, ?_, ?_⟩ <;> simp [start, closed, way]

namespace Invariant

/-- Everything on the stack leads back to a slot on the way that is no later. -/
theorem exists_way (h : Invariant g s) {a : Nat} (ha : a ∈ s.stack) :
    ∃ c ∈ s.way, s.indexAt c ≤ s.indexAt a ∧ ReflTransGen g.Edge a c := by
  -- a low link leads to an earlier slot
  induction hindex : s.indexAt a using Nat.strong_induction_on generalizing a with
  | h index ih =>
      by_cases hway : a ∈ s.way
      · exact ⟨a, hway, Nat.le_of_eq hindex, ReflTransGen.refl⟩
      · rcases h.reached a ha with ⟨b, hb, hlow, hreach⟩
        have hlt : s.indexAt b < index := by
          rw [hlow, ← hindex]
          exact h.low_lt a ha hway
        rcases ih (s.indexAt b) hlt hb rfl with ⟨c, hc, hle, hback⟩
        exact ⟨c, hc, Nat.le_of_lt (Nat.lt_of_le_of_lt hle hlt), hreach.trans hback⟩

/-- When the way is at its end, the stack is empty. -/
theorem stack_eq_nil (h : Invariant g s) (hframes : s.frames = []) : s.stack = [] := by
  rw [List.eq_nil_iff_forall_not_mem]
  intro a ha
  rcases h.exists_way ha with ⟨c, hc, -⟩
  simp [way, hframes] at hc

/-! ## Meeting a slot -/

/-- A live slot not yet met is met when the whole way leads to it. -/
theorem enter (h : Invariant g s) {slot : Nat} (hlive : g.isLive slot = true)
    (hfresh : slot ∉ s.stack ++ s.closed) (hleads : ∀ c ∈ s.way, ReflTransGen g.Edge c slot) :
    Invariant g (s.enter g slot) := by
  have hlt := h.lt_length hlive
  have hindex : ∀ other ∈ s.stack, (s.enter g slot).indexAt other = s.indexAt other :=
    fun _ => h.indexAt_enter_of_mem hlive hfresh
  have hlow : ∀ other ∈ s.stack, (s.enter g slot).lowAt other = s.lowAt other :=
    fun _ => h.lowAt_enter_of_mem hlive hfresh
  have hindexSlot : (s.enter g slot).indexAt slot = s.nextIndex := indexAt_enter_self hlt
  have hlowSlot : (s.enter g slot).lowAt slot = s.nextIndex := lowAt_enter_self hlt
  have hpending : ∀ {a b : Nat}, s.Pending a b → (s.enter g slot).Pending a b := by
    rintro a b ⟨frame, hframe, hslot, hb⟩
    exact ⟨frame, List.mem_cons_of_mem _ hframe, hslot, hb⟩
  have hown : ∀ {b : Nat}, g.Edge slot b → (s.enter g slot).Pending slot b := by
    intro b hedge
    exact ⟨⟨slot, g.next slot⟩, List.mem_cons_self, rfl, hedge.2.2⟩
  -- the slot itself has a greater index than what was met before
  have hearlier : ∀ c ∈ (s.enter g slot).way, ∀ a ∈ s.stack,
      (s.enter g slot).indexAt c ≤ (s.enter g slot).indexAt a →
        c ∈ s.way ∧ s.indexAt c ≤ s.indexAt a := by
    intro c hc a ha hle
    rw [hindex a ha] at hle
    rcases List.mem_cons.1 hc with heq | hc
    · have hbefore := h.index_lt a ha
      rw [heq, hindexSlot] at hle
      omega
    · rw [hindex c (h.mem_stack_of_way hc)] at hle
      exact ⟨hc, hle⟩
  refine ⟨h.toConsistent.enter hlive hfresh, ?low_le, ?low_lt, ?reached, ?leads, ?followed,
    ?accounted, h.confined, h.component⟩
  case low_le =>
    intro a ha
    rcases List.mem_cons.1 ha with rfl | ha
    · rw [hindexSlot, hlowSlot]
    · rw [hindex a ha, hlow a ha]
      exact h.low_le a ha
  case low_lt =>
    intro a ha hway
    have hother : a ≠ slot ∧ a ∉ s.way := by
      simpa [way, Search.enter, not_or] using hway
    have ha : a ∈ s.stack := (List.mem_cons.1 ha).resolve_left hother.1
    rw [hindex a ha, hlow a ha]
    exact h.low_lt a ha hother.2
  case reached =>
    intro a ha
    rcases List.mem_cons.1 ha with rfl | ha
    · exact ⟨a, List.mem_cons_self, by rw [hindexSlot, hlowSlot], ReflTransGen.refl⟩
    · rcases h.reached a ha with ⟨b, hb, heq, hreach⟩
      refine ⟨b, List.mem_cons_of_mem slot hb, ?_, hreach⟩
      rw [hindex b hb, hlow a ha]
      exact heq
  case leads =>
    intro c hc a ha hle
    rcases List.mem_cons.1 ha with heq | ha
    · rw [heq]
      rcases List.mem_cons.1 hc with hself | hc
      · rw [hself]
      · exact hleads c hc
    · rcases hearlier c hc a ha hle with ⟨hc, hle⟩
      exact h.leads c hc a ha hle
  case followed =>
    intro a ha b hedge
    rcases List.mem_cons.1 ha with rfl | ha
    · exact Or.inl (hown hedge)
    · exact (h.followed a ha b hedge).imp hpending (List.mem_cons_of_mem slot)
  case accounted =>
    intro c hc a ha hle b hb hbefore hedge
    rcases List.mem_cons.1 ha with rfl | ha
    · exact Or.inl (hown hedge)
    · rcases hearlier c hc a ha hle with ⟨hc, hle⟩
      rw [hindex c (h.mem_stack_of_way hc)] at hbefore ⊢
      rcases List.mem_cons.1 hb with heq | hb
      · have hlast := h.index_lt c (h.mem_stack_of_way hc)
        rw [heq, hindexSlot] at hbefore
        omega
      · rw [hindex b hb] at hbefore ⊢
        refine (h.accounted c hc a ha hle b hb hbefore hedge).imp hpending ?_
        rintro ⟨d, hd, hdeep, hlink⟩
        refine ⟨d, List.mem_cons_of_mem slot hd, ?_, ?_⟩
        · rw [hindex d (h.mem_stack_of_way hd)]
          exact hdeep
        · rw [hlow d (h.mem_stack_of_way hd)]
          exact hlink

/-! ## Following edges -/

/-- The low link of a slot may be lowered to the index of a slot on the stack that it
reaches. -/
theorem lower (h : Invariant g s) {slot target : Nat} (hslot : slot ∈ s.stack)
    (htarget : target ∈ s.stack) (hreach : ReflTransGen g.Edge slot target) :
    Invariant g (s.lower slot (s.indexAt target)) := by
  have hmet : (s.visit? slot).isSome = true := (h.met_iff slot).2 (List.mem_append_left _ hslot)
  refine ⟨h.toConsistent.lower slot _, ?low_le, ?low_lt, ?reached, ?leads, h.followed, ?accounted,
    h.confined, h.component⟩
  case low_le =>
    intro a ha
    rw [indexAt_lower]
    exact (lowAt_lower_le s slot _ a).trans (h.low_le a ha)
  case low_lt =>
    intro a ha hway
    rw [indexAt_lower]
    exact (lowAt_lower_le s slot _ a).trans_lt (h.low_lt a ha hway)
  case reached =>
    intro a ha
    simp only [indexAt_lower]
    by_cases heq : a = slot
    · rw [heq, lowAt_lower_self _ hmet]
      rcases Nat.le_total (s.lowAt slot) (s.indexAt target) with hle | hle
      · rw [Nat.min_eq_left hle]
        exact h.reached slot hslot
      · rw [Nat.min_eq_right hle]
        exact ⟨target, htarget, rfl, hreach⟩
    · rw [lowAt_lower_of_ne s slot _ a heq]
      exact h.reached a ha
  case leads =>
    intro c hc a ha hle
    rw [indexAt_lower, indexAt_lower] at hle
    exact h.leads c hc a ha hle
  case accounted =>
    intro c hc a ha hle b hb hbefore hedge
    simp only [indexAt_lower] at hle hbefore ⊢
    refine (h.accounted c hc a ha hle b hb hbefore hedge).imp_right ?_
    rintro ⟨d, hd, hdeep, hlink⟩
    exact ⟨d, hd, hdeep, (lowAt_lower_le s slot _ d).trans hlink⟩

/-- An edge is followed when it leads to nothing live, to a closed slot or to a slot on
the stack that the low link accounts for. -/
theorem drop (h : Invariant g s) (front : List Frame) {below : List Frame} {slot target : Nat}
    {pending : List Nat} (hframes : s.frames = front ++ ⟨slot, target :: pending⟩ :: below)
    (htarget : g.isLive target = false ∨ target ∈ s.closed ∨
      target ∈ s.stack ∧ s.lowAt slot ≤ s.indexAt target) :
    Invariant g { s with frames := front ++ ⟨slot, pending⟩ :: below } := by
  have hway : way { s with frames := front ++ ⟨slot, pending⟩ :: below } = s.way := by
    simp [way, hframes]
  have hslot : slot ∈ s.way := by simp [way, hframes]
  have hpending : ∀ {a b : Nat}, s.Pending a b → a = slot ∧ b = target ∨
      Pending { s with frames := front ++ ⟨slot, pending⟩ :: below } a b := by
    rintro a b ⟨frame, hframe, rfl, hb⟩
    rw [hframes, List.mem_append, List.mem_cons] at hframe
    rcases hframe with hframe | rfl | hframe
    · exact Or.inr ⟨frame, by simp [hframe], rfl, hb⟩
    · exact (List.mem_cons.1 hb).imp (fun heq => ⟨rfl, heq⟩) fun hb =>
        ⟨⟨slot, pending⟩, by simp, rfl, hb⟩
    · exact Or.inr ⟨frame, by simp [hframe], rfl, hb⟩
  refine ⟨?toConsistent, h.low_le, ?low_lt, h.reached, ?leads, ?followed, ?accounted, h.confined,
    h.component⟩
  case toConsistent =>
    refine h.toConsistent.withFrames ?_ ?_
    · rw [show (front ++ ⟨slot, pending⟩ :: below).map Frame.slot = s.way from hway]
      exact h.way_sublist
    · intro frame hframe b hb
      rcases List.mem_append.1 hframe with hframe | hframe
      · exact h.next_of_pending _ _ ⟨frame, by simp [hframes, hframe], rfl, hb⟩
      · rcases List.mem_cons.1 hframe with rfl | hframe
        · exact h.next_of_pending _ _ ⟨⟨slot, target :: pending⟩, by simp [hframes], rfl,
            List.mem_cons_of_mem target hb⟩
        · exact h.next_of_pending _ _ ⟨frame, by simp [hframes, hframe], rfl, hb⟩
  case low_lt =>
    rw [hway]
    exact h.low_lt
  case leads =>
    rw [hway]
    exact h.leads
  case followed =>
    intro a ha b hedge
    rcases h.followed a ha b hedge with hb | hb
    · rcases hpending hb with ⟨rfl, rfl⟩ | hb
      · right
        rcases htarget with hdead | hclosed | hstack
        · exact absurd hedge.2.1 (by simp [hdead])
        · exact List.mem_append_right _ hclosed
        · exact List.mem_append_left _ hstack.1
      · exact Or.inl hb
    · exact Or.inr hb
  case accounted =>
    rw [hway]
    intro c hc a ha hle b hb hbefore hedge
    rcases h.accounted c hc a ha hle b hb hbefore hedge with hpend | hlink
    · rcases hpending hpend with ⟨rfl, rfl⟩ | hpend
      · right
        rcases htarget with hdead | hclosed | hstack
        · exact absurd hedge.2.1 (by simp [hdead])
        · exact absurd hclosed (h.not_mem_closed hb)
        · exact ⟨a, hslot, hle, hstack.2⟩
      · exact Or.inl hpend
    · exact Or.inr hlink

/-! ## Leaving a slot -/

section Leave

variable {slot : Nat} {below : List Frame}

/-- A frame with nothing left to do leaves nothing pending. -/
theorem pending_below (hframes : s.frames = ⟨slot, []⟩ :: below) {a b : Nat}
    (hpending : s.Pending a b) : Pending { s with frames := below } a b := by
  rcases hpending with ⟨frame, hframe, rfl, hb⟩
  rw [hframes] at hframe
  rcases List.mem_cons.1 hframe with rfl | hframe
  · cases hb
  · exact ⟨frame, hframe, rfl, hb⟩

/-- A slot may be left on the stack when its low link lies below its index and was passed
on to the way. -/
theorem retreat (h : Invariant g s) (hframes : s.frames = ⟨slot, []⟩ :: below)
    (hlow : s.lowAt slot < s.indexAt slot)
    (hpassed : ∀ c ∈ below.map Frame.slot, ∃ d ∈ below.map Frame.slot,
      s.indexAt c ≤ s.indexAt d ∧ s.lowAt d ≤ s.lowAt slot) :
    Invariant g { s with frames := below } := by
  have hway : s.way = slot :: below.map Frame.slot := by rw [way, hframes, List.map_cons]
  have hsub : ∀ c ∈ below.map Frame.slot, c ∈ s.way := by
    intro c hc
    rw [hway]
    exact List.mem_cons_of_mem slot hc
  refine ⟨h.toConsistent.below hframes, h.low_le, ?low_lt, h.reached, ?leads, ?followed, ?accounted,
    h.confined, h.component⟩
  case low_lt =>
    intro a ha hnot
    by_cases heq : a = slot
    · rw [heq]
      exact hlow
    · refine h.low_lt a ha ?_
      rw [hway, List.mem_cons, not_or]
      exact ⟨heq, hnot⟩
  case leads =>
    intro c hc
    exact h.leads c (hsub c hc)
  case followed =>
    intro a ha b hedge
    exact (h.followed a ha b hedge).imp_left (pending_below hframes)
  case accounted =>
    intro c hc a ha hle b hb hbefore hedge
    rcases h.accounted c (hsub c hc) a ha hle b hb hbefore hedge with
      hpending | ⟨d, hd, hdeep, hlink⟩
    · exact Or.inl (pending_below hframes hpending)
    · right
      rw [hway] at hd
      rcases List.mem_cons.1 hd with heq | hd
      · -- what the slot accounted for, the way does now
        rcases hpassed c hc with ⟨parent, hparent, hdeep, hpass⟩
        rw [heq] at hlink
        exact ⟨parent, hparent, hdeep, hpass.trans hlink⟩
      · exact ⟨d, hd, hdeep, hlink⟩

/-- What stands on the stack from the deepest slot of the way upward and that slot reach
one another. -/
theorem reaches_of_top (h : Invariant g s) {pending : List Nat}
    (hframes : s.frames = ⟨slot, pending⟩ :: below) {a : Nat} (ha : a ∈ s.stack)
    (hle : s.indexAt slot ≤ s.indexAt a) :
    ReflTransGen g.Edge slot a ∧ ReflTransGen g.Edge a slot := by
  have hslot : slot ∈ s.way := by simp [way, hframes]
  refine ⟨h.leads slot hslot a ha hle, ?_⟩
  rcases h.exists_way ha with ⟨c, hc, -, hback⟩
  exact hback.trans
    (h.leads c hc slot (h.mem_stack_of_way hslot) (h.index_le_of_way hframes hc))

/-- Nothing on the stack from a finished slot upward leads below the slot. -/
theorem edge_of_done (h : Invariant g s) (hframes : s.frames = ⟨slot, []⟩ :: below)
    (hlow : s.lowAt slot = s.indexAt slot) {a b : Nat} (ha : a ∈ s.stack)
    (hle : s.indexAt slot ≤ s.indexAt a) (hedge : g.Edge a b) :
    b ∈ s.stack ∧ s.indexAt slot ≤ s.indexAt b ∨ b ∈ s.closed := by
  have hnone : ¬ s.Pending a b := by
    intro hpending
    rcases pending_below hframes hpending with ⟨frame, hframe, rfl, -⟩
    have hlt := h.index_lt_of_below hframes (List.mem_map_of_mem hframe)
    exact Nat.not_lt.2 hle hlt
  rcases List.mem_append.1 ((h.followed a ha b hedge).resolve_left hnone) with hb | hb
  · refine Or.inl ⟨hb, ?_⟩
    by_contra hbefore
    have hslot : slot ∈ s.way := by simp [way, hframes]
    rcases h.accounted slot hslot a ha hle b hb (Nat.not_le.1 hbefore) hedge with
      hpending | ⟨d, hd, hdeep, hlink⟩
    · exact hnone hpending
    · rw [way, hframes, List.map_cons] at hd
      rcases List.mem_cons.1 hd with rfl | hd
      · exact hbefore (hlow ▸ hlink)
      · exact Nat.not_lt.2 hdeep (h.index_lt_of_below hframes hd)
  · exact Or.inr hb

/-- What closed slots reach is closed. -/
theorem closed_of_reach (h : Invariant g s) {a b : Nat} (ha : a ∈ s.closed)
    (hreach : ReflTransGen g.Edge a b) : b ∈ s.closed := by
  induction hreach with
  | refl => exact ha
  | tail _ hedge ih => exact h.confined _ ih _ hedge

/-- What stands on the stack from a finished slot upward is a strong component. -/
theorem isComponent_of_done (h : Invariant g s) (hframes : s.frames = ⟨slot, []⟩ :: below)
    (hlow : s.lowAt slot = s.indexAt slot) {members : List Nat}
    (hmembers : ∀ a, a ∈ members ↔ a ∈ s.stack ∧ s.indexAt slot ≤ s.indexAt a) {a : Nat}
    (ha : a ∈ members) (b : Nat) :
    b ∈ members ↔ ReflTransGen g.Edge a b ∧ ReflTransGen g.Edge b a := by
  rcases (hmembers a).1 ha with ⟨hstack, hle⟩
  rcases h.reaches_of_top hframes hstack hle with ⟨hdown, hup⟩
  constructor
  · intro hb
    rcases (hmembers b).1 hb with ⟨hbStack, hbLe⟩
    rcases h.reaches_of_top hframes hbStack hbLe with ⟨hbDown, hbUp⟩
    exact ⟨hup.trans hbDown, hbUp.trans hdown⟩
  · rintro ⟨hto, hback⟩
    have hb : b ∈ members ∨ b ∈ s.closed := by
      clear hback
      induction hto with
      | refl => exact Or.inl ha
      | @tail middle last _ hedge ih =>
          rcases ih with hmember | hclosed
          · rcases (hmembers middle).1 hmember with ⟨hmStack, hmLe⟩
            exact (h.edge_of_done hframes hlow hmStack hmLe hedge).imp_left (hmembers last).2
          · exact Or.inr (h.confined _ hclosed _ hedge)
    rcases hb with hmember | hclosed
    · exact hmember
    · exact absurd (h.closed_of_reach hclosed hback) (h.not_mem_closed hstack)

/-- A finished slot whose low link is its own index is taken off the stack together with
what stands above it. -/
theorem cut (h : Invariant g s) (hframes : s.frames = ⟨slot, []⟩ :: below)
    (hlow : s.lowAt slot = s.indexAt slot) :
    Invariant g ({ s with frames := below }.cut slot) := by
  have hshort := h.toConsistent.below hframes
  rcases h.toConsistent.exists_split hframes with ⟨front, rest, hstack, hwayRest⟩
  rcases hshort.cut_eq hstack with ⟨hrest, hcomponents, hbelow⟩
  have hclosed : ({ s with frames := below }.cut slot).closed = (front ++ [slot]) ++ s.closed := by
    rw [closed, hcomponents]
    rfl
  have hway : ({ s with frames := below }.cut slot).way = below.map Frame.slot := by
    rw [way, hbelow]
  have hpending : ∀ a b, s.Pending a b → ({ s with frames := below }.cut slot).Pending a b := by
    intro a b hpending
    unfold Pending
    rw [hbelow]
    exact pending_below hframes hpending
  have hsub : ∀ c ∈ below.map Frame.slot, c ∈ s.way := by
    intro c hc
    rw [way, hframes, List.map_cons]
    exact List.mem_cons_of_mem slot hc
  have hmemRest : ∀ {a : Nat}, a ∈ rest ↔ a ∈ s.stack ∧ s.indexAt a < s.indexAt slot :=
    h.toConsistent.mem_rest_iff hstack
  have hmembers : ∀ a, a ∈ front ++ [slot] ↔ a ∈ s.stack ∧ s.indexAt slot ≤ s.indexAt a :=
    fun _ => h.toConsistent.mem_top_iff hstack
  refine ⟨hshort.cut hstack (by simpa [way] using hwayRest), ?low_le, ?low_lt, ?reached, ?leads,
    ?followed, ?accounted, ?confined, ?component⟩
  case low_le =>
    intro a ha
    rw [hrest] at ha
    rw [indexAt_cut, lowAt_cut]
    exact h.low_le a (hmemRest.1 ha).1
  case low_lt =>
    intro a ha hnot
    rw [hrest] at ha
    rw [hway] at hnot
    rw [indexAt_cut, lowAt_cut]
    refine h.low_lt a (hmemRest.1 ha).1 ?_
    rw [way, hframes, List.map_cons, List.mem_cons, not_or]
    refine ⟨?_, hnot⟩
    rintro rfl
    exact Nat.lt_irrefl _ (hmemRest.1 ha).2
  case reached =>
    intro a ha
    rw [hrest] at ha ⊢
    simp only [indexAt_cut, lowAt_cut]
    rcases hmemRest.1 ha with ⟨hmem, hlt⟩
    rcases h.reached a hmem with ⟨b, hb, heq, hreach⟩
    have hle : s.indexAt b ≤ s.indexAt a := heq ▸ h.low_le a hmem
    exact ⟨b, hmemRest.2 ⟨hb, hle.trans_lt hlt⟩, heq, hreach⟩
  case leads =>
    intro c hc a ha hle
    rw [hway] at hc
    rw [hrest] at ha
    rw [indexAt_cut, indexAt_cut] at hle
    exact h.leads c (hsub c hc) a (hmemRest.1 ha).1 hle
  case followed =>
    intro a ha b hedge
    rw [hrest] at ha
    refine (h.followed a (hmemRest.1 ha).1 b hedge).imp (hpending a b) ?_
    exact (hshort.mem_visited_cut_iff hstack b).2
  case accounted =>
    intro c hc a ha hle b hb hbefore hedge
    rw [hway] at hc ⊢
    rw [hrest] at ha hb
    simp only [indexAt_cut, lowAt_cut] at hle hbefore ⊢
    rcases h.accounted c (hsub c hc) a (hmemRest.1 ha).1 hle b (hmemRest.1 hb).1 hbefore hedge
      with hpend | ⟨d, hd, hdeep, hlink⟩
    · exact Or.inl (hpending a b hpend)
    · rw [way, hframes, List.map_cons] at hd
      rcases List.mem_cons.1 hd with rfl | hd
      · -- the low link of the slot lies above what remains
        exact absurd (hmemRest.1 hb).2 (Nat.not_lt.2 (hlow ▸ hlink))
      · exact Or.inr ⟨d, hd, hdeep, hlink⟩
  case confined =>
    intro a ha b hedge
    rw [hclosed] at ha ⊢
    rcases List.mem_append.1 ha with hmember | hold
    · rcases (hmembers a).1 hmember with ⟨hmem, hle⟩
      rcases h.edge_of_done hframes hlow hmem hle hedge with hb | hb
      · exact List.mem_append_left _ ((hmembers b).2 hb)
      · exact List.mem_append_right _ hb
    · exact List.mem_append_right _ (h.confined a hold b hedge)
  case component =>
    intro c hc a ha b
    rw [hcomponents] at hc
    rcases List.mem_cons.1 hc with rfl | hc
    · exact h.isComponent_of_done hframes hlow hmembers ha b
    · exact h.component c hc a ha b

/-- The low link of a slot that is left is passed on to what remains of the way. -/
theorem passOn (h : Invariant g s) (hframes : s.frames = ⟨slot, []⟩ :: below) :
    ∃ t, Invariant g t ∧ t.frames = s.frames ∧
      { s with frames := below }.passOn (s.lowAt slot) = { t with frames := below } ∧
      t.lowAt slot = s.lowAt slot ∧ t.indexAt slot = s.indexAt slot ∧
      ∀ c ∈ below.map Frame.slot, ∃ d ∈ below.map Frame.slot,
        t.indexAt c ≤ t.indexAt d ∧ t.lowAt d ≤ t.lowAt slot := by
  cases hbelow : below with
  | nil => exact ⟨s, h, rfl, rfl, rfl, rfl, by simp⟩
  | cons parent others =>
      rw [hbelow] at hframes
      have hslot : slot ∈ s.stack := h.mem_stack_of_way (by simp [way, hframes])
      have hparentWay : parent.slot ∈ s.way := by simp [way, hframes]
      have hparent := h.mem_stack_of_way hparentWay
      have hearlier : s.indexAt parent.slot < s.indexAt slot :=
        h.index_lt_of_below hframes List.mem_cons_self
      have hne : slot ≠ parent.slot := by
        rintro heq
        rw [← heq] at hearlier
        exact Nat.lt_irrefl _ hearlier
      rcases h.reached slot hslot with ⟨target, htarget, hindex, hreach⟩
      have hparentReach :=
        (h.leads parent.slot hparentWay slot hslot (Nat.le_of_lt hearlier)).trans hreach
      have hlowered := h.lower hparent htarget hparentReach
      rw [hindex] at hlowered
      have hmet := (h.met_iff parent.slot).2 (List.mem_append_left _ hparent)
      have hlow : (s.lower parent.slot (s.lowAt slot)).lowAt slot = s.lowAt slot :=
        lowAt_lower_of_ne s _ _ slot hne
      refine ⟨s.lower parent.slot (s.lowAt slot), hlowered, rfl, rfl, hlow, indexAt_lower .., ?_⟩
      intro c hc
      refine ⟨parent.slot, by simp, ?_, ?_⟩
      · rw [indexAt_lower, indexAt_lower]
        exact (h.toConsistent.below hframes).index_le_of_way rfl hc
      · rw [hlow, lowAt_lower_self _ hmet]
        exact Nat.min_le_right _ _

/-- Leaving a slot keeps the invariant. -/
theorem leave (h : Invariant g s) (hframes : s.frames = ⟨slot, []⟩ :: below) :
    Invariant g ({ s with frames := below }.leave slot) := by
  have hslot : slot ∈ s.stack := h.mem_stack_of_way (by simp [way, hframes])
  rcases Option.isSome_iff_exists.1 ((h.met_iff slot).2 (List.mem_append_left _ hslot)) with
    ⟨visit, hvisit⟩
  have hlow : s.lowAt slot = visit.lowLink := by simp [lowAt, hvisit]
  have hindex : s.indexAt slot = visit.index := by simp [indexAt, hvisit]
  have hvisit : visit? { s with frames := below } slot = some visit := hvisit
  rcases h.passOn hframes with ⟨t, ht, htFrames, hpass, htLow, htIndex, hpassed⟩
  rw [hframes] at htFrames
  rw [Search.leave, hvisit]
  simp only [← hlow, hpass]
  split
  · rename_i heq
    refine ht.cut htFrames ?_
    rw [htLow, htIndex, heq, hindex]
  · rename_i hne
    refine ht.retreat htFrames ?_ hpassed
    rw [htLow, htIndex]
    refine Nat.lt_of_le_of_ne (h.low_le slot hslot) ?_
    rw [hindex]
    exact hne

end Leave

/-! ## The steps of the search -/

/-- Following an edge keeps the invariant. -/
theorem follow (h : Invariant g s) {slot target : Nat} {pending : List Nat} {below : List Frame}
    (hframes : s.frames = ⟨slot, target :: pending⟩ :: below) :
    Invariant g ({ s with frames := ⟨slot, pending⟩ :: below }.follow g slot target) := by
  have hslotWay : slot ∈ s.way := by simp [way, hframes]
  have hslot : slot ∈ s.stack := h.mem_stack_of_way hslotWay
  have hnext : target ∈ g.next slot :=
    h.next_of_pending slot target ⟨_, by rw [hframes]; exact List.mem_cons_self, rfl, by simp⟩
  rw [Search.follow]
  split
  · rename_i hdead
    exact h.drop [] hframes (Or.inl (by simpa using hdead))
  · rename_i hlive
    have hlive : g.isLive target = true := by simpa using hlive
    have hedge : g.Edge slot target := ⟨h.live slot (List.mem_append_left _ hslot), hlive, hnext⟩
    have hmet := h.met_iff target
    split
    · rename_i hvisit
      have hvisit : s.visit? target = none := hvisit
      have hfresh : target ∉ s.stack ++ s.closed := by
        rw [← hmet, hvisit]
        simp
      have hentered := h.enter hlive hfresh fun c hc =>
        (h.leads c hc slot hslot (h.index_le_of_way hframes hc)).tail hedge
      have hstill : (s.enter g target).frames =
          [⟨target, g.next target⟩] ++ ⟨slot, target :: pending⟩ :: below := by
        rw [Search.enter, hframes]
        rfl
      refine hentered.drop [⟨target, g.next target⟩] hstill
        (Or.inr (Or.inr ⟨List.mem_cons_self, ?_⟩))
      rw [h.lowAt_enter_of_mem hlive hfresh hslot, indexAt_enter_self (h.lt_length hlive)]
      exact (h.low_le slot hslot).trans (Nat.le_of_lt (h.index_lt slot hslot))
    · rename_i visit hvisit
      have hvisit : s.visit? target = some visit := hvisit
      have hindex : s.indexAt target = visit.index := by simp [indexAt, hvisit]
      have hstacked : visit.onStack = true ↔ target ∈ s.stack := by
        rw [← h.stacked_iff target]
        simp [isStacked, hvisit]
      split
      · rename_i hon
        have htarget := hstacked.1 hon
        have hlowered := h.lower hslot htarget (ReflTransGen.single hedge)
        rw [hindex] at hlowered
        refine hlowered.drop [] hframes (Or.inr (Or.inr ⟨htarget, ?_⟩))
        have hmetSlot := (h.met_iff slot).2 (List.mem_append_left _ hslot)
        rw [lowAt_lower_self _ hmetSlot, indexAt_lower, hindex]
        exact Nat.min_le_right _ _
      · rename_i hoff
        have hclosed : target ∈ s.closed := by
          have hvisited : target ∈ s.stack ++ s.closed := hmet.1 (by rw [hvisit]; rfl)
          exact (List.mem_append.1 hvisited).resolve_left fun hmem => hoff (hstacked.2 hmem)
        exact h.drop [] hframes (Or.inr (Or.inl hclosed))

/-- A step of the search keeps the invariant. -/
theorem step {next : Search} (h : Invariant g s) (hstep : s.step? g = some next) :
    Invariant g next := by
  rcases eq_of_step? hstep with ⟨slot, below, hframes, rfl⟩ | ⟨slot, target, pending, below,
    hframes, rfl⟩
  · exact h.leave hframes
  · exact h.follow hframes

end Invariant

end Search

end TriggerGraph
