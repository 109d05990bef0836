import TriggerGraph.Proofs.Value.Equality
import TriggerGraph.Value.Fingerprint

/-!
# What a fingerprint tells apart

Strict equality takes both zeros for one, while the marks of a value keep the sign of a
zero: as the bits of a number, and as a minus sign in the text of a member.  Nothing else
is lost between equal values, so equal values with the same marks are one value.

A text ends where its document ends, and marks end where their value ends: two equal
documents, or values, that begin the same sequence are the same and leave the same rest.
This is the form that carries the induction over lists and members.

Main results:

- Theorem `Document.chars_append_inj`: equal documents that begin one text are the same.
- Theorem `Value.eq_of_equal_of_fingerprint`: equal values with the same marks are the same.
- Theorem `Value.marks_of_equal_values`: when equal values leave the same marks.
- Theorem `Value.inSet_iff_exists_normalized_eq`: a set finds the elements that normalize to
  the very same value.
-/

namespace TriggerGraph

/-! ## Numbers -/

namespace Binary64

theorem documentText_of_isZero {x : Binary64} (h : x.isZero = true) :
    x.documentText = x.signed ['0', '.', '0'] := by
  have hcode : x.code = 0 := by simpa [isZero] using h
  have hfinite : x.isFinite = true := by simp [isFinite, hcode, infinityCode]
  simp [documentText, hfinite, h]

/-- Numbers that differ in the sign of zero at most begin one text only if they are the same. -/
theorem documentText_append_inj {x y : Binary64} (h : x.plain = y.plain) {r s : List Char}
    (htext : x.documentText ++ r = y.documentText ++ s) : x = y ∧ r = s := by
  rcases plain_eq_iff.1 h with rfl | ⟨hx, hy⟩
  · exact ⟨rfl, List.append_cancel_left htext⟩
  · have hcode : x.code = y.code := by
      simp only [isZero, decide_eq_true_eq] at hx hy
      rw [hx, hy]
    rw [documentText_of_isZero hx, documentText_of_isZero hy] at htext
    -- A minus sign in one text only shows in the first character.
    cases hxSign : x.negative <;> cases hySign : y.negative <;>
      simp [signed, hxSign, hySign] at htext
    · exact ⟨eq_of_code (hxSign.trans hySign.symm) hcode, htext⟩
    · exact ⟨eq_of_code (hxSign.trans hySign.symm) hcode, htext⟩

/-- Numbers of one bit pattern are the same. -/
theorem toBits_inj {x y : Binary64} (h : x.toBits = y.toBits) : x = y := by
  have hread := ofBits?_toBits x
  rw [h, ofBits?_toBits y] at hread
  exact (Option.some.inj hread).symm

end Binary64

/-- So do numbers of documents. -/
theorem Number.documentText_append_inj {m n : Number} (h : m.plain = n.plain)
    {r s : List Char} (htext : m.documentText ++ r = n.documentText ++ s) : m = n ∧ r = s := by
  cases m <;> cases n <;> simp only [plain, reduceCtorEq] at h
  · cases h
    exact ⟨rfl, List.append_cancel_left htext⟩
  · rcases Binary64.documentText_append_inj (Number.float.inj h) htext with ⟨rfl, hrest⟩
    exact ⟨rfl, hrest⟩

/-! ## Texts of documents -/

namespace Document

mutual

/-- Equal documents that begin one text are the same and leave the same rest. -/
theorem chars_append_inj : ∀ {d e : Document} {r s : List Char}, d.plain = e.plain →
    d.chars ++ r = e.chars ++ s → d = e ∧ r = s
  | .null, e, r, s, h, htext => by
      cases e <;> simp only [plain, reduceCtorEq] at h
      exact ⟨rfl, List.append_cancel_left htext⟩
  | .bool b, e, r, s, h, htext => by
      cases e <;> simp only [plain, reduceCtorEq] at h
      cases h
      exact ⟨rfl, List.append_cancel_left htext⟩
  | .number n, e, r, s, h, htext => by
      cases e <;> simp only [plain, reduceCtorEq] at h
      simp only [chars] at htext
      rcases Number.documentText_append_inj (Document.number.inj h) htext with ⟨rfl, hrest⟩
      exact ⟨rfl, hrest⟩
  | .string t, e, r, s, h, htext => by
      cases e <;> simp only [plain, reduceCtorEq] at h
      cases h
      exact ⟨rfl, List.append_cancel_left htext⟩
  | .array [], e, r, s, h, htext => by
      cases e <;> simp only [plain, reduceCtorEq] at h
      rename_i es
      cases es <;> simp [plainItems] at h
      exact ⟨rfl, List.append_cancel_left htext⟩
  | .array (d :: ds), e, r, s, h, htext => by
      cases e <;> simp only [plain, reduceCtorEq] at h
      rename_i es
      cases es <;> simp [plainItems] at h
      simp only [chars, List.cons_append, List.append_assoc, List.cons.injEq, true_and] at htext
      rcases chars_append_inj h.1 htext with ⟨rfl, hitems⟩
      rcases itemChars_append_inj h.2 hitems with ⟨rfl, hrest⟩
      exact ⟨rfl, (List.cons.inj hrest).2⟩
  | .object [], e, r, s, h, htext => by
      cases e <;> simp only [plain, reduceCtorEq] at h
      rename_i es
      cases es <;> simp [plainMembers] at h
      exact ⟨rfl, List.append_cancel_left htext⟩
  | .object ((key, d) :: ds), e, r, s, h, htext => by
      cases e <;> simp only [plain, reduceCtorEq] at h
      rename_i es
      cases es <;> simp [plainMembers] at h
      rcases h with ⟨⟨rfl, hd⟩, hds⟩
      simp only [chars, List.cons_append, List.append_assoc, List.cons.injEq, true_and,
        List.append_cancel_left_eq] at htext
      rcases chars_append_inj hd htext with ⟨rfl, hmembers⟩
      rcases memberChars_append_inj hds hmembers with ⟨rfl, hrest⟩
      exact ⟨rfl, (List.cons.inj hrest).2⟩

theorem itemChars_append_inj : ∀ {ds es : List Document} {r s : List Char},
    plainItems ds = plainItems es → itemChars ds ++ r = itemChars es ++ s → ds = es ∧ r = s
  | [], es, r, s, h, htext => by
      cases es <;> simp [plainItems] at h
      exact ⟨rfl, htext⟩
  | d :: ds, es, r, s, h, htext => by
      cases es <;> simp [plainItems] at h
      simp only [itemChars, List.cons_append, List.append_assoc, List.cons.injEq, true_and]
        at htext
      rcases chars_append_inj h.1 htext with ⟨rfl, hitems⟩
      rcases itemChars_append_inj h.2 hitems with ⟨rfl, hrest⟩
      exact ⟨rfl, hrest⟩

theorem memberChars_append_inj : ∀ {ds es : List (String × Document)} {r s : List Char},
    plainMembers ds = plainMembers es → memberChars ds ++ r = memberChars es ++ s →
      ds = es ∧ r = s
  | [], es, r, s, h, htext => by
      cases es <;> simp [plainMembers] at h
      exact ⟨rfl, htext⟩
  | (key, d) :: ds, es, r, s, h, htext => by
      cases es <;> simp [plainMembers] at h
      rcases h with ⟨⟨rfl, hd⟩, hds⟩
      simp only [memberChars, List.cons_append, List.append_assoc, List.cons.injEq, true_and,
        List.append_cancel_left_eq] at htext
      rcases chars_append_inj hd htext with ⟨rfl, hmembers⟩
      rcases memberChars_append_inj hds hmembers with ⟨rfl, hrest⟩
      exact ⟨rfl, hrest⟩

end

/-- Equal documents with one text are the same. -/
theorem eq_of_plain_of_text {d e : Document} (h : d.plain = e.plain) (htext : d.text = e.text) :
    d = e := by
  have hchars : d.chars ++ [] = e.chars ++ [] := by
    rw [String.ofList_injective htext]
  exact (chars_append_inj h hchars).1

end Document

/-! ## Marks of values -/

namespace Value

/-- Equal members that begin one sequence of marks are the same and leave the same rest. -/
theorem memberMarks_append_inj {ms ns : List (String × Document)} {r s : List Mark}
    (h : Document.plainMembers ms = Document.plainMembers ns)
    (hmarks : (ms.flatMap fun entry => [Mark.text entry.1, Mark.text entry.2.text]) ++ r =
      (ns.flatMap fun entry => [Mark.text entry.1, Mark.text entry.2.text]) ++ s) :
    ms = ns ∧ r = s := by
  induction ms generalizing ns with
  | nil =>
      cases ns <;> simp [Document.plainMembers] at h
      exact ⟨rfl, hmarks⟩
  | cons member ms ih =>
      cases ns with
      | nil => simp [Document.plainMembers] at h
      | cons other ns =>
          rcases member with ⟨key, d⟩
          rcases other with ⟨otherKey, e⟩
          simp only [Document.plainMembers, List.cons.injEq, Prod.mk.injEq] at h
          simp only [List.flatMap_cons, List.cons_append, List.nil_append, List.cons.injEq,
            Mark.text.injEq] at hmarks
          rcases h with ⟨⟨rfl, hd⟩, hms⟩
          rcases hmarks with ⟨-, htext, hmarks⟩
          rcases ih hms hmarks with ⟨rfl, hrest⟩
          rw [Document.eq_of_plain_of_text hd htext]
          exact ⟨rfl, hrest⟩

mutual

/-- Equal values that begin one sequence of marks are the same and leave the same rest. -/
theorem fingerprint_append_inj : ∀ {v w : Value} {r s : List Mark}, v.plain = w.plain →
    v.fingerprint ++ r = w.fingerprint ++ s → v = w ∧ r = s
  | .null, w, r, s, h, hmarks => by
      cases w <;> simp only [plain, reduceCtorEq] at h
      exact ⟨rfl, List.append_cancel_left hmarks⟩
  | .bool b, w, r, s, h, hmarks => by
      cases w <;> simp only [plain, reduceCtorEq] at h
      cases h
      exact ⟨rfl, List.append_cancel_left hmarks⟩
  | .number (.word word), w, r, s, h, hmarks => by
      cases w <;> simp only [plain, reduceCtorEq] at h
      rename_i n
      cases n <;> simp [MachineNumber.plain] at h
      subst h
      exact ⟨rfl, List.append_cancel_left hmarks⟩
  | .number (.float x), w, r, s, h, hmarks => by
      cases w <;> simp only [plain, reduceCtorEq] at h
      rename_i n
      cases n <;> simp [MachineNumber.plain] at h
      simp only [fingerprint, List.cons_append, List.nil_append, List.cons.injEq,
        Mark.bits.injEq] at hmarks
      rw [Binary64.toBits_inj hmarks.1]
      exact ⟨rfl, hmarks.2⟩
  | .string t, w, r, s, h, hmarks => by
      cases w <;> simp only [plain, reduceCtorEq] at h
      cases h
      exact ⟨rfl, List.append_cancel_left hmarks⟩
  | .list vs, w, r, s, h, hmarks => by
      cases w <;> simp only [plain, reduceCtorEq] at h
      simp only [fingerprint, List.cons_append, List.cons.injEq] at hmarks
      rcases fingerprintItems_append_inj (Value.list.inj h) hmarks.2 with ⟨rfl, hrest⟩
      exact ⟨rfl, hrest⟩
  | .object ms, w, r, s, h, hmarks => by
      cases w <;> simp only [plain, reduceCtorEq] at h
      simp only [fingerprint, List.cons_append, List.cons.injEq] at hmarks
      rcases memberMarks_append_inj (Value.object.inj h) hmarks.2 with ⟨rfl, hrest⟩
      exact ⟨rfl, hrest⟩

theorem fingerprintItems_append_inj : ∀ {vs ws : List Value} {r s : List Mark},
    plainItems vs = plainItems ws → fingerprintItems vs ++ r = fingerprintItems ws ++ s →
      vs = ws ∧ r = s
  | [], ws, r, s, h, hmarks => by
      cases ws <;> simp [plainItems] at h
      exact ⟨rfl, hmarks⟩
  | v :: vs, ws, r, s, h, hmarks => by
      cases ws <;> simp [plainItems] at h
      simp only [fingerprintItems, List.append_assoc] at hmarks
      rcases fingerprint_append_inj h.1 hmarks with ⟨rfl, hitems⟩
      rcases fingerprintItems_append_inj h.2 hitems with ⟨rfl, hrest⟩
      exact ⟨rfl, hrest⟩

end

/-- Equal values with the same marks are the same. -/
theorem eq_of_equal_of_fingerprint {v w : Value} (hequal : v.equal w = true)
    (hmarks : v.fingerprint = w.fingerprint) : v = w :=
  (fingerprint_append_inj (r := []) (s := []) ((equal_iff v w).1 hequal) (by rw [hmarks])).1

/-- No zero in the value is negative, in lists and objects at every depth. -/
def HasPlainZeros (v : Value) : Prop := v.plain = v

/-- Equal values leave the same marks exactly when they are the same, down to the signs of
their zeros.  So they do when no zero in either of them is negative. -/
theorem marks_of_equal_values {v w : Value} (h : v.equal w = true) :
    (v.fingerprint = w.fingerprint ↔ v = w) ∧
      (v.HasPlainZeros → w.HasPlainZeros → v.fingerprint = w.fingerprint) := by
  refine ⟨⟨eq_of_equal_of_fingerprint h, fun hsame => hsame ▸ rfl⟩, fun hv hw => ?_⟩
  have hsame : v = w := by
    calc v = v.plain := hv.symm
      _ = w.plain := (equal_iff v w).1 h
      _ = w := hw
  rw [hsame]

/-- A zero of either sign. -/
def signedZero (negative : Bool) : MachineNumber := .float ⟨negative, 0, Nat.zero_le _⟩

/-- A list of a number and an object with the same number as a member. -/
def twice (n : MachineNumber) : Value :=
  .list [.number n, .object [("a", .number n.number)]]

/-- Two nested zeros of different signs are equal and leave different marks. -/
theorem marks_of_nested_zeros :
    (twice (signedZero false)).equal (twice (signedZero true)) = true ∧
      (twice (signedZero false)).HasPlainZeros ∧ ¬ (twice (signedZero true)).HasPlainZeros ∧
      (twice (signedZero false)).fingerprint ≠ (twice (signedZero true)).fingerprint := by
  have hequal : (twice (signedZero false)).equal (twice (signedZero true)) = true := rfl
  have hne : twice (signedZero false) ≠ twice (signedZero true) := by
    simp [twice, signedZero]
  have hplain : (twice (signedZero true)).plain = twice (signedZero false) := rfl
  refine ⟨hequal, rfl, ?_, mt (marks_of_equal_values hequal).1.1 hne⟩
  rw [HasPlainZeros, hplain]
  exact hne

/-- The two zeros are equal and leave different marks, alone and as a member of an object. -/
theorem marks_differ_on_negative_zero :
    (Value.number (signedZero false)).equal (.number (signedZero true)) = true ∧
      (Value.number (signedZero false)).fingerprint ≠
        (Value.number (signedZero true)).fingerprint ∧
      (Value.object [("a", .number (signedZero false).number)]).equal
        (.object [("a", .number (signedZero true).number)]) = true ∧
      (Value.object [("a", .number (signedZero false).number)]).fingerprint ≠
        (Value.object [("a", .number (signedZero true).number)]).fingerprint :=
  ⟨rfl, by decide, rfl, by decide⟩

/-- A set finds the elements that normalize to the very same value. -/
theorem inSet_iff_exists_normalized_eq {v : Value} {items : List Value} :
    v.inSet items = true ↔ ∃ item ∈ items, item.normalized = v.normalized := by
  rw [inSet_iff]
  refine exists_congr fun item => and_congr_right fun _ => ?_
  constructor
  · rintro ⟨hmarks, hequal⟩
    exact eq_of_equal_of_fingerprint hequal hmarks
  · intro h
    rw [looselyEqual, h]
    exact ⟨rfl, (equal_iff _ _).2 rfl⟩

end Value

end TriggerGraph
