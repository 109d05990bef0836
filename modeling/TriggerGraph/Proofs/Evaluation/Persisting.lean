import TriggerGraph.Proofs.Document.Text
import TriggerGraph.Proofs.Evaluation.Declared
import TriggerGraph.Proofs.Evaluation.Remembering
import TriggerGraph.Proofs.Stored.Context

/-!
# Feeding a snapshot back

The snapshot of a pass is stored and read back as a part of the next context.  There a value lies
three levels deep, behind the context, the snapshot and its entry, while in the source it may lie
at the first level or be the source itself.  So not every value that a source can hold can be
remembered in a text: a watched value that nests more than the limit less three makes the text of
the next context unreadable.  Everything else is read back as it was.

Main results:

- Theorem `Context.FitsIn.ofText?_text_iff`: a context is read back from its text exactly if its
  values fit.
- Theorem `Evaluator.snapshot_feeds_back_iff`: when the snapshot of a pass can be fed back.
-/

namespace TriggerGraph

open Json (Tree)

/-! ## Equal values nest alike -/

namespace Document

mutual

/-- Losing the signs of zeros keeps the nesting of a document. -/
theorem depth_plain : ∀ d : Document, d.plain.depth = d.depth
  | .null => rfl
  | .bool _ => rfl
  | .number _ => rfl
  | .string _ => rfl
  | .array items => by rw [plain, depth, depth, depthItems_plainItems items]
  | .object members => by rw [plain, depth, depth, depthMembers_plainMembers members]

theorem depthItems_plainItems : ∀ ds : List Document, depthItems (plainItems ds) = depthItems ds
  | [] => rfl
  | d :: rest => by
      rw [plainItems, depthItems, depthItems, depth_plain d, depthItems_plainItems rest]

theorem depthMembers_plainMembers : ∀ ds : List (String × Document),
    depthMembers (plainMembers ds) = depthMembers ds
  | [] => rfl
  | (_, d) :: rest => by
      rw [plainMembers, depthMembers, depthMembers, depth_plain d, depthMembers_plainMembers rest]

end

end Document

namespace Value

/-- How many arrays and objects nest in a value. -/
def depth (v : Value) : Nat := v.toDocument.depth

theorem depth_number (n : MachineNumber) : depth (.number n) = 0 := by
  unfold depth toDocument
  split <;> rfl

mutual

/-- Losing the signs of zeros keeps the nesting of a value. -/
theorem depth_plain : ∀ v : Value, v.plain.depth = v.depth
  | .null => rfl
  | .bool _ => rfl
  | .number n => by rw [plain, depth_number, depth_number]
  | .string _ => rfl
  | .list items => by
      have hitems := depthItems_plainItems items
      rw [plain, depth, depth, toDocument, toDocument, Document.depth, Document.depth, hitems]
  | .object members => by
      have hmembers := Document.depthMembers_plainMembers members
      rw [plain, depth, depth, toDocument, toDocument, Document.depth, Document.depth, hmembers]

theorem depthItems_plainItems : ∀ vs : List Value,
    Document.depthItems (toDocuments (plainItems vs)) = Document.depthItems (toDocuments vs)
  | [] => rfl
  | v :: rest => by
      have hfirst := depth_plain v
      rw [plainItems, toDocuments, toDocuments, Document.depthItems, Document.depthItems,
        depthItems_plainItems rest]
      exact congrArg (max · _) hfirst

end

/-- Equal values nest alike. -/
theorem depth_eq_of_equal {v w : Value} (h : v.equal w = true) : v.depth = w.depth := by
  rw [← depth_plain v, (equal_iff v w).1 h, depth_plain]

end Value

/-! ## Contexts and their texts -/

namespace Context

variable {context other : Context} {budget large : Nat}

/-- How many arrays and objects a value can nest in a snapshot that is stored in a context. -/
def valueLimit : Nat := Document.nestingLimit - 3

/-- The context of a text fits in what a text can nest. -/
theorem fitsIn_of_ofText? {text : String} (h : ofText? text = some context) :
    context.FitsIn valueLimit := by
  rcases Option.bind_eq_some_iff.1 h with ⟨t, ht, hread⟩
  exact fitsIn_of_ofTree? (Tree.allFinite_of_ofText? ht) hread

/-- A context is read back from its text exactly if its values fit. -/
theorem FitsIn.ofText?_text_iff [EntryOrder] (h : context.FitsIn large) :
    ofText? context.toDocument.text = some other ↔
      context = other ∧ context.FitsIn valueLimit := by
  rw [ofText?, Tree.ofText?_text h.allFinite_toDocument, Option.bind_some]
  exact h.readsBack valueLimit other

/-- What a source holds at a path is no null and fits where the source does. -/
theorem FitsIn.live (h : context.FitsIn budget) {path : String} {v : Value}
    (hlive : context.live path = some v) : v ≠ .null ∧ v.FitsIn (budget + 2) := by
  rcases Option.bind_eq_some_iff.1 hlive with ⟨source, hsource, hextract⟩
  rcases Option.bind_eq_some_iff.1 hextract with ⟨d, hfound, hleaf⟩
  have hfits := (h.source source hsource).2.resolve? hfound
  rcases Value.ofLeaf?_eq_some_iff.1 hleaf with ⟨hnull, rfl⟩
  refine ⟨?_, Value.fitsIn_ofDocument hfits⟩
  cases d <;> simp_all [Value.ofDocument]

/-- What is remembered at a path fits where the context does. -/
theorem FitsIn.previous (h : context.FitsIn budget) {path : String} {entry : SnapshotEntry}
    (hentry : context.previous.find? path = some entry) : entry.FitsIn budget := by
  cases hsnapshot : context.snapshot with
  | none =>
      rw [Context.previous, hsnapshot] at hentry
      cases hentry
  | some snapshot =>
      rw [Context.previous, hsnapshot] at hentry
      exact h.snapshot snapshot hsnapshot _ (Keyed.mem_of_find? hentry)

/-- A fresh entry fits if the value found does. -/
theorem FitsIn.fresh_iff (h : context.FitsIn budget) (now : Timestamp) (path : String) :
    SnapshotEntry.FitsIn ⟨context.live path, now⟩ budget ↔
      ∀ v ∈ context.live path, v.depth ≤ budget := by
  constructor
  · intro hentry v hv
    exact (hentry v hv).2.toDocument.depth_le
  · intro hdepth v hv
    rcases h.live hv with ⟨hnull, hfits⟩
    exact ⟨hnull, ⟨hfits.toDocument.canonical, hfits.toDocument.allFinite, hdepth v hv⟩,
      hfits.ofDocument_toDocument⟩

/-- The entry that a path leaves fits if the value found there does: an entry that stays was
remembered for an equal value. -/
theorem FitsIn.entryOf_iff (h : context.FitsIn budget) (now : Timestamp) (path : String) :
    (Detection.entryOf context.previous now (path, context.live path)).FitsIn budget ↔
      ∀ v ∈ context.live path, v.depth ≤ budget := by
  unfold Detection.entryOf
  cases hold : context.previous.find? path with
  | none => exact h.fresh_iff now path
  | some old =>
      dsimp only
      split_ifs with hequal
      · have hfits := h.previous hold
        refine ⟨fun _ v hv => ?_, fun _ => hfits⟩
        rw [Option.mem_def.1 hv] at hequal
        cases hvalue : old.value with
        | none =>
            rw [hvalue] at hequal
            cases hequal
        | some w =>
            rw [hvalue] at hequal
            rw [← Value.depth_eq_of_equal hequal]
            exact (hfits w hvalue).2.toDocument.depth_le
      · exact h.fresh_iff now path

end Context

/-! ## Snapshots of passes -/

namespace Evaluator

open TriggerGraph.Graph

section AnyEngine

variable [SchemaEngine] {nodes : List Node} {graph : Graph} {evaluator : Evaluator}
  {context : Context} {now : Timestamp} {outcome : Outcome} {budget : Nat}

/-- The next context fits if the values found at the watched paths do. -/
theorem fitsIn_withSnapshot_iff (hbuild : build nodes = .ok graph)
    (hsound : evaluator.schemas.Sound)
    (h : (evaluator.evaluate graph context now).1 = .ok outcome) (hfits : context.FitsIn budget) :
    (context.withSnapshot outcome.snapshot).FitsIn budget ↔
      ∀ path, graph.Watches path → ∀ v ∈ context.live path, v.depth ≤ budget := by
  have hcycle := hasCycle_of_evaluate h
  constructor
  · intro hnext path hwatched
    have hentry := find?_snapshot_of_watches hbuild hcycle hsound h hwatched
    exact (hfits.entryOf_iff now path).1 (hnext.snapshot _ rfl _ (Keyed.mem_of_find? hentry))
  · intro hpaths
    refine ⟨hfits.source, ?_⟩
    rintro _ ⟨⟩ ⟨path, entry⟩ hmem
    have hentry := (Keyed.find?_eq_some_iff_mem outcome.snapshot.ascending).2 hmem
    rcases (find?_snapshot_iff hbuild hcycle hsound h).1 hentry with ⟨hwatched, rfl⟩
    exact (hfits.entryOf_iff now path).2 (hpaths path hwatched)

/-- What a source holds lies at most two levels too deep to be remembered. -/
theorem fitsIn_withSnapshot (hbuild : build nodes = .ok graph) (hsound : evaluator.schemas.Sound)
    (h : (evaluator.evaluate graph context now).1 = .ok outcome) (hfits : context.FitsIn budget) :
    (context.withSnapshot outcome.snapshot).FitsIn (budget + 2) :=
  (fitsIn_withSnapshot_iff hbuild hsound h (hfits.mono (Nat.le_add_right _ 2))).2
    fun _ _ _ hv => (hfits.live (Option.mem_def.1 hv)).2.toDocument.depth_le

/-- The next context is read back from its text exactly if no value found at a watched path nests
too much to be remembered. -/
theorem ofText?_withSnapshot_iff [EntryOrder] (hbuild : build nodes = .ok graph)
    (hsound : evaluator.schemas.Sound)
    (h : (evaluator.evaluate graph context now).1 = .ok outcome)
    (hfits : context.FitsIn Context.valueLimit) {next : Context} :
    Context.ofText? (context.withSnapshot outcome.snapshot).toDocument.text = some next ↔
      context.withSnapshot outcome.snapshot = next ∧
        ∀ path, graph.Watches path → ∀ v ∈ context.live path, v.depth ≤ Context.valueLimit := by
  rw [(fitsIn_withSnapshot hbuild hsound h hfits).ofText?_text_iff,
    fitsIn_withSnapshot_iff hbuild hsound h hfits]

/-! ## Feeding snapshots back -/

/-- The snapshot of a pass over a context from a text can be fed back, in a text with the same
source and the entries in any order, exactly if no value found at a watched path nests more than
the limit on texts less three.  If it can, it is read back as it is. -/
theorem snapshot_feeds_back_iff [EntryOrder] {text : String}
    (htext : Context.ofText? text = some context) (hbuild : build nodes = .ok graph)
    (hreachable : evaluator.Reachable)
    (h : (evaluator.evaluate graph context now).1 = .ok outcome) (next : Context) :
    Context.ofText? (context.withSnapshot outcome.snapshot).toDocument.text = some next ↔
      next = context.withSnapshot outcome.snapshot ∧
        ∀ path v, graph.Watches path → context.live path = some v →
          v.toDocument.depth + 3 ≤ Document.nestingLimit := by
  have hlimit : ∀ v : Value, v.depth ≤ Context.valueLimit ↔
      v.toDocument.depth + 3 ≤ Document.nestingLimit := fun v =>
    (Nat.add_le_add_iff_right (n := 3)).symm
  rw [ofText?_withSnapshot_iff hbuild hreachable.sound h (Context.fitsIn_of_ofText? htext),
    eq_comm]
  refine and_congr_right fun _ => ?_
  constructor
  · exact fun hpaths path v hwatched hlive => (hlimit v).1 (hpaths path hwatched v hlive)
  · exact fun hpaths path hwatched v hlive => (hlimit v).2 (hpaths path v hwatched hlive)

end AnyEngine

/-! ## Nested values -/

/-- A detection on one value. -/
def tripwire : List Node :=
  [.provider 1 "source.a", .config 2 Detection.anyChange [1], .final 3 (some 2)]

/-- The tripwire with its inputs resolved and its order. -/
def tripwireGraph : Graph :=
  ⟨tripwire, [(3, 2), (2, 1), (1, 0)], [[], [0], [1]], ⟨[0, 1, 2], false, []⟩⟩

/-- The tripwire watches one path. -/
theorem watches_tripwire_iff {path : String} :
    tripwireGraph.Watches path ↔ path = "source.a" := by
  have hconfig : tripwireGraph.watchedBy (.config 2 Detection.anyChange [1]) = ["source.a"] := by
    rfl
  have hnodes : ∀ node, node ∈ tripwireGraph.nodes ↔ node = .provider 1 "source.a" ∨
      node = .config 2 Detection.anyChange [1] ∨ node = .final 3 (some 2) := by
    simp [tripwireGraph, tripwire]
  constructor
  · rintro ⟨node, hnode, hpath⟩
    rcases (hnodes node).1 hnode with rfl | rfl | rfl
    · cases hpath
    · rw [hconfig] at hpath
      exact List.mem_singleton.1 hpath
    · cases hpath
  · rintro rfl
    exact ⟨_, (hnodes _).2 (.inr (.inl rfl)), hconfig ▸ List.mem_singleton_self _⟩

/-- Arrays in arrays, around an empty one. -/
def nest : Nat → Document
  | 0 => .array []
  | levels + 1 => .array [nest levels]

theorem depth_nest (levels : Nat) : (nest levels).depth = levels + 1 := by
  induction levels with
  | zero => rfl
  | succ levels ih =>
      rw [nest, Document.depth, Document.depthItems, Document.depthItems, ih]
      rfl

theorem fitsIn_nest (levels : Nat) : (nest levels).FitsIn (levels + 1) := by
  refine ⟨?_, ?_, Nat.le_of_eq (depth_nest levels)⟩
  · induction levels with
    | zero => trivial
    | succ levels ih => exact ⟨ih, trivial⟩
  · induction levels with
    | zero => trivial
    | succ levels ih => exact ⟨ih, trivial⟩

/-- A context whose source holds arrays in arrays where the tripwire watches. -/
def nestedContext (levels : Nat) : Context := .ofSource (.object [("a", nest levels)])

theorem live_nestedContext (levels : Nat) :
    (nestedContext levels).live "source.a" = some (.ofDocument (nest levels)) := by
  cases levels <;> rfl

/-- The context fits if its arrays are within the limit on texts. -/
theorem fitsIn_nestedContext {levels : Nat} (h : levels ≤ 124) :
    (nestedContext levels).FitsIn Context.valueLimit := by
  have hnest := fitsIn_nest levels
  have hdepth : levels + 2 ≤ Context.valueLimit + 2 := Nat.add_le_add_right h 2
  refine ⟨?_, by rintro s ⟨⟩⟩
  rintro d ⟨⟩
  refine ⟨by rintro ⟨⟩, ⟨List.pairwise_singleton _ _, hnest.canonical, trivial⟩,
    ⟨hnest.allFinite, trivial⟩, ?_⟩
  rw [Document.depth, Document.depthMembers, Document.depthMembers, depth_nest]
  omega

section BooleanSchemas

attribute [local instance] SchemaEngine.booleans EntryOrder.ascending

/-- The first pass of the tripwire over nested values succeeds. -/
theorem exists_outcome_nestedContext (levels : Nat) :
    ∃ outcome, (fresh.evaluate tripwireGraph (nestedContext levels) 7).1 = .ok outcome := by
  have hverdict : fresh.verdict tripwireGraph (nestedContext levels) 7 = .ok true := by
    cases levels <;> rfl
  rcases exists_outcome_of_verdict hverdict with ⟨outcome, houtcome, -⟩
  exact ⟨outcome, houtcome⟩

/-- The deepest values that can be remembered are. -/
theorem snapshot_of_nested_feeds_back :
    ∃ context outcome, Context.ofText? (nestedContext 123).toDocument.text = some context ∧
      (fresh.evaluate tripwireGraph context 7).1 = .ok outcome ∧
        Context.ofText? (context.withSnapshot outcome.snapshot).toDocument.text =
          some (context.withSnapshot outcome.snapshot) := by
  have hbuild : build tripwire = .ok tripwireGraph := by rfl
  have hfresh : fresh.Reachable := .made SchemaCache.defaultCapacity fun _ => 0
  have hfits : (nestedContext 123).FitsIn Context.valueLimit := fitsIn_nestedContext (by decide)
  have htext := hfits.ofText?_text_iff.2 ⟨rfl, hfits⟩
  rcases exists_outcome_nestedContext 123 with ⟨outcome, houtcome⟩
  refine ⟨_, outcome, htext, houtcome, ?_⟩
  refine (snapshot_feeds_back_iff htext hbuild hfresh houtcome _).2 ⟨rfl, ?_⟩
  rintro path v hwatched hlive
  rw [watches_tripwire_iff.1 hwatched, live_nestedContext] at hlive
  cases hlive
  rw [(fitsIn_nest 123).allFinite.toDocument_ofDocument, depth_nest]
  decide

/-- One level more: the text of the context is read, a pass over it succeeds, and the text with
the snapshot of that pass is not read. -/
theorem deep_snapshot_is_refused :
    Context.ofText? (nestedContext 124).toDocument.text = some (nestedContext 124) ∧
      build tripwire = .ok tripwireGraph ∧
      ∃ outcome, (fresh.evaluate tripwireGraph (nestedContext 124) 7).1 = .ok outcome ∧
        Context.ofText? ((nestedContext 124).withSnapshot outcome.snapshot).toDocument.text =
          none := by
  have hbuild : build tripwire = .ok tripwireGraph := by rfl
  have hfresh : fresh.Reachable := .made SchemaCache.defaultCapacity fun _ => 0
  have hfits : (nestedContext 124).FitsIn Context.valueLimit := fitsIn_nestedContext (by decide)
  rcases exists_outcome_nestedContext 124 with ⟨outcome, houtcome⟩
  refine ⟨hfits.ofText?_text_iff.2 ⟨rfl, hfits⟩, hbuild, outcome, houtcome, ?_⟩
  refine Option.eq_none_iff_forall_ne_some.2 fun next hread => ?_
  have hpaths := ((ofText?_withSnapshot_iff hbuild hfresh.sound houtcome hfits).1 hread).2
  have hdepth := hpaths _ (watches_tripwire_iff.2 rfl) _ (live_nestedContext 124)
  rw [Value.depth, (fitsIn_nest 124).allFinite.toDocument_ofDocument, depth_nest] at hdepth
  exact absurd hdepth (by decide)

end BooleanSchemas

end Evaluator

end TriggerGraph
