import TriggerGraph.Node

/-!
# Accepted provider paths

Taking a path apart at its dots and joining the segments again are inverse to each
other, as long as no segment holds a dot.  So the check of a provider path, which looks
at the segments, can be read off the text: what passes is the root with segments behind
it, at least one and none empty.

Main results:

- Theorem `pieces_join`: joined stretches without the separator are taken apart again.
- Theorem `segments_eq_iff`: the segments of a path are the texts that make it up.
- Theorems `checkProvider_eq_ok_iff_isBelow` and `checkProvider_eq_ok_iff`: which paths pass the
  check.
-/

namespace TriggerGraph

namespace Path

variable {separator : Char}

/-! ## Taking apart and joining -/

/-- A text without the separator is one stretch. -/
theorem pieces_of_notMem {cs : List Char} (h : separator ∉ cs) : pieces separator cs = [cs] := by
  induction cs with
  | nil => rfl
  | cons c rest ih =>
      rw [List.mem_cons, not_or] at h
      rcases h with ⟨hne, hrest⟩
      unfold pieces
      rw [if_neg (Ne.symm hne), ih hrest]

/-- The first stretch ends at the first separator. -/
theorem pieces_append {piece : List Char} (h : separator ∉ piece) (rest : List Char) :
    pieces separator (piece ++ separator :: rest) = piece :: pieces separator rest := by
  induction piece with
  | nil => simp [pieces]
  | cons c piece ih =>
      rw [List.mem_cons, not_or] at h
      rcases h with ⟨hne, hpiece⟩
      rw [List.cons_append, pieces, if_neg (Ne.symm hne), ih hpiece]

/-- Joined stretches without the separator are taken apart again. -/
theorem pieces_join {stretches : List (List Char)} (hne : stretches ≠ [])
    (h : ∀ piece ∈ stretches, separator ∉ piece) :
    pieces separator (join separator stretches) = stretches := by
  induction stretches with
  | nil => exact absurd rfl hne
  | cons piece rest ih =>
      rw [List.forall_mem_cons] at h
      rcases h with ⟨hpiece, hrest⟩
      cases rest with
      | nil => exact pieces_of_notMem hpiece
      | cons next more => rw [join, pieces_append hpiece, ih (List.cons_ne_nil _ _) hrest]

/-- No stretch holds the separator. -/
theorem notMem_of_mem_pieces {cs piece : List Char} (h : piece ∈ pieces separator cs) :
    separator ∉ piece := by
  induction cs generalizing piece with
  | nil =>
      rw [pieces, List.mem_singleton] at h
      simp [h]
  | cons c rest ih =>
      unfold pieces at h
      split at h
      · rcases List.mem_cons.1 h with rfl | hrest
        · exact List.not_mem_nil
        · exact ih hrest
      · rename_i hc
        split at h
        · rename_i hnil
          exact absurd hnil (pieces_ne_nil separator rest)
        · rename_i first more hpieces
          rw [hpieces] at ih
          rcases List.mem_cons.1 h with rfl | hmore
          · rw [List.mem_cons, not_or]
            exact ⟨Ne.symm hc, ih List.mem_cons_self⟩
          · exact ih (List.mem_cons_of_mem first hmore)

/-! ## Segments -/

variable {path : String}

/-- Texts with dots between them, character by character. -/
theorem toList_intercalate (texts : List String) :
    (".".intercalate texts).toList = join '.' (texts.map String.toList) := by
  rw [String.toList_intercalate]
  induction texts with
  | nil => rfl
  | cons text rest ih =>
      cases rest with
      | nil => simp [List.intercalate, join]
      | cons next more =>
          rw [List.map_cons, List.map_cons, join, ← List.map_cons, ← ih]
          simp [List.intercalate]

/-- The segments of a path are the texts without a dot that make it up. -/
theorem segments_eq_iff {texts : List String} (hne : texts ≠ []) :
    segments path = texts ↔
      path = ".".intercalate texts ∧ ∀ text ∈ texts, '.' ∉ text.toList := by
  constructor
  · rintro rfl
    constructor
    · refine String.toList_inj.1 ?_
      rw [toList_intercalate, segments, List.map_map]
      simp [Function.comp_def, join_pieces]
    · intro text htext
      rcases List.mem_map.1 htext with ⟨piece, hpiece, rfl⟩
      rw [String.toList_ofList]
      exact notMem_of_mem_pieces hpiece
  · rintro ⟨rfl, hdotless⟩
    rw [segments, toList_intercalate, pieces_join (by simpa using hne), List.map_map]
    · simp [Function.comp_def]
    · intro piece hpiece
      rcases List.mem_map.1 hpiece with ⟨text, htext, rfl⟩
      exact hdotless text htext

/-! ## The form of a provider path -/

/-- The path is the root with segments behind it, at least one and none empty. -/
def BelowRoot (path : String) : Prop :=
  ∃ below : List (List Char), below ≠ [] ∧ (∀ segment ∈ below, segment ≠ [] ∧ '.' ∉ segment) ∧
    path.toList = join '.' (sourceRoot.toList :: below)

/-- The path is the source root and these segments below it, at least one and none empty, with
dots between them. -/
structure IsBelow (path : String) (below : List String) : Prop where
  ne_nil : below ≠ []
  nonempty : ∀ segment ∈ below, segment ≠ ""
  dotless : ∀ segment ∈ below, '.' ∉ segment.toList
  eq_intercalate : path = ".".intercalate (sourceRoot :: below)

/-- Said of characters or of texts, a path below the root is the same. -/
theorem belowRoot_iff_isBelow : BelowRoot path ↔ ∃ below, IsBelow path below := by
  constructor
  · rintro ⟨below, hne, hbelow, hpath⟩
    refine ⟨below.map String.ofList, by simpa using hne, ?_, ?_, ?_⟩
    · intro segment hsegment hempty
      rcases List.mem_map.1 hsegment with ⟨piece, hpiece, rfl⟩
      exact (hbelow piece hpiece).1 (by simpa using congrArg String.toList hempty)
    · intro segment hsegment
      rcases List.mem_map.1 hsegment with ⟨piece, hpiece, rfl⟩
      rw [String.toList_ofList]
      exact (hbelow piece hpiece).2
    · refine String.toList_inj.1 ?_
      rw [hpath, toList_intercalate, List.map_cons, List.map_map]
      simp [Function.comp_def]
  · rintro ⟨below, hbelow⟩
    refine ⟨below.map String.toList, by simpa using hbelow.ne_nil, ?_, ?_⟩
    · intro piece hpiece
      rcases List.mem_map.1 hpiece with ⟨segment, hsegment, rfl⟩
      refine ⟨fun hnil => hbelow.nonempty segment hsegment ?_, hbelow.dotless segment hsegment⟩
      exact String.toList_eq_nil_iff.1 hnil
    · rw [hbelow.eq_intercalate, toList_intercalate, List.map_cons]

/-- The check passes when the segments are the root and others, at least one and none
empty. -/
theorem checkProvider_eq_ok_iff_segments :
    checkProvider path = .ok () ↔
      ∃ below, segments path = sourceRoot :: below ∧ below ≠ [] ∧ "" ∉ below := by
  unfold checkProvider
  cases segments path with
  | nil => simp
  | cons root below =>
      by_cases hroot : root = sourceRoot
      · cases below with
        | nil => simp [hroot]
        | cons first more =>
            have hany : (first :: more).any (· = "") = decide ("" ∈ first :: more) := by
              rw [Bool.eq_iff_iff]
              simp
            simp [hroot, hany]
      · simp [hroot]

/-- The accepted paths are those of the root and segments below it. -/
theorem checkProvider_eq_ok_iff_isBelow :
    checkProvider path = .ok () ↔ ∃ below, IsBelow path below := by
  have hroot : '.' ∉ sourceRoot.toList := by decide
  rw [checkProvider_eq_ok_iff_segments]
  refine exists_congr fun below => ?_
  rw [segments_eq_iff (List.cons_ne_nil _ _), List.forall_mem_cons]
  constructor
  · rintro ⟨⟨hpath, -, hdotless⟩, hne, hempty⟩
    exact ⟨hne, fun segment hsegment hnil => hempty (hnil ▸ hsegment), hdotless, hpath⟩
  · rintro ⟨hne, hnonempty, hdotless, hpath⟩
    exact ⟨⟨hpath, hroot, hdotless⟩, hne, fun hmem => hnonempty "" hmem rfl⟩

/-- The paths that pass the check are those below the root. -/
theorem checkProvider_eq_ok_iff : checkProvider path = .ok () ↔ BelowRoot path :=
  checkProvider_eq_ok_iff_isBelow.trans belowRoot_iff_isBelow.symm

end Path

end TriggerGraph
