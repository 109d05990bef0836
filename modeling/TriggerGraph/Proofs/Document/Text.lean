import TriggerGraph.Proofs.Document.Layout
import TriggerGraph.Proofs.Document.Tree
import TriggerGraph.Proofs.Json.Literal

/-!
# Reading the text of a document

The text of a document whose numbers are finite reads as the tree of that document, in whatever
layout it is written.  Nothing is lost on the way: an escaped string is scanned up to its own
quote, a number up to where it cannot go on, blanks up to where there are no more, and twice the
length of a text is fuel enough for it.  Conversely a text holds finite
numbers only.

Main results:

- Theorem `scanString_escaped`: an escaped string is scanned up to its closing quote.
- Theorem `readValue_chars`: a document is read off the front of a text.
- Theorems `Tree.ofText?_text` and `Tree.ofText?_prettyText`: the compact text of a document and
  its text over lines read as its tree.
- Theorem `Tree.allFinite_of_ofText?`: numbers that are read are finite.
-/

namespace TriggerGraph

namespace Json

open Text (escaped quoted)

/-! ## Strings -/

/-- Two hexadecimal digits behind zeros name a control character. -/
theorem hexUnit?_control : ∀ n < 0x20,
    hexUnit? '0' '0' (Nat.digitChar (n / 16)) (Nat.digitChar (n % 16)) = some n := by
  decide

theorem scanString_quote (rest : List Char) : scanString ('"' :: rest) = some ([], rest) := by
  rw [scanString.eq_def]
  rfl

/-- An escape of one letter stands for its character. -/
theorem scanString_letter {letter c : Char} (h : escaped? letter = some c) (rest : List Char) :
    scanString ('\\' :: letter :: rest) =
      (scanString rest).map fun scanned => (c.toNat :: scanned.1, scanned.2) := by
  have hletter : letter ≠ 'u' := by
    rintro rfl
    simp [escaped?] at h
  rw [scanString.eq_def]
  simp only [Char.reduceEq, ↓reduceIte]
  split
  · rename_i hu
    exact absurd (List.cons.inj hu).1 hletter
  · rename_i e more _ hmore
    rcases List.cons.inj hmore with ⟨rfl, rfl⟩
    rw [h]
    cases scanString rest <;> rfl
  · rename_i hnil
    cases hnil

/-- An escape of four digits stands for its unit. -/
theorem scanString_unit {h1 h2 h3 h4 : Char} {unit : Nat} (h : hexUnit? h1 h2 h3 h4 = some unit)
    (rest : List Char) :
    scanString ('\\' :: 'u' :: h1 :: h2 :: h3 :: h4 :: rest) =
      (scanString rest).map fun scanned => (unit :: scanned.1, scanned.2) := by
  rw [scanString.eq_def]
  simp only [Char.reduceEq, ↓reduceIte, h]
  cases scanString rest <;> rfl

/-- Other characters stand for themselves. -/
theorem scanString_raw {c : Char} (hquote : c ≠ '"') (hslash : c ≠ '\\')
    (hcontrol : ¬ c.toNat < 0x20) (rest : List Char) :
    scanString (c :: rest) =
      (scanString rest).map fun scanned => (c.toNat :: scanned.1, scanned.2) := by
  rw [scanString.eq_def]
  simp only [hquote, hslash, hcontrol, ↓reduceIte]
  cases scanString rest <;> rfl

/-- A character is scanned in the way it is escaped. -/
theorem scanString_escaped (c : Char) (rest : List Char) :
    scanString (escaped c ++ rest) =
      (scanString rest).map fun scanned => (c.toNat :: scanned.1, scanned.2) := by
  unfold escaped
  split_ifs with hquote hslash h3 h4 h5 h6 h7 hcontrol
  · exact scanString_letter (by rw [hquote]; rfl) rest
  · exact scanString_letter (by rw [hslash]; rfl) rest
  · exact scanString_letter (by rw [h3]; rfl) rest
  · exact scanString_letter (by rw [h4]; rfl) rest
  · exact scanString_letter (by rw [h5]; rfl) rest
  · exact scanString_letter (by rw [h6]; rfl) rest
  · exact scanString_letter (by rw [h7]; rfl) rest
  · exact scanString_unit (hexUnit?_control c.toNat hcontrol) rest
  · exact scanString_raw hquote hslash hcontrol rest

/-- Escaped characters up to a quote are scanned as the characters they were. -/
theorem scanString_flatMap_escaped (cs rest : List Char) :
    scanString (cs.flatMap escaped ++ '"' :: rest) = some (cs.map Char.toNat, rest) := by
  induction cs with
  | nil => exact scanString_quote rest
  | cons c cs ih =>
      rw [List.flatMap_cons, List.append_assoc, scanString_escaped, ih]
      rfl

/-- Characters are their own units. -/
theorem joinUnits_map_toNat (cs : List Char) : joinUnits (cs.map Char.toNat) = some cs := by
  induction cs with
  | nil => simp [joinUnits]
  | cons c cs ih =>
      have hscalar : c.toNat < 0xD800 ∨ 0xE000 ≤ c.toNat := by
        rcases c.valid with hlow | ⟨hhigh, -⟩
        · exact .inl hlow
        · exact .inr hhigh
      rw [List.map_cons, joinUnits_scalar hscalar, ih, Option.map_some, Char.ofNat_toNat]

/-- A string is read back from between its quotes. -/
theorem readString_escaped (s : String) (rest : List Char) :
    readString (s.toList.flatMap escaped ++ '"' :: rest) = some (some s, rest) := by
  rw [readString, scanString_flatMap_escaped, Option.map_some, joinUnits_map_toNat,
    Option.map_some, String.ofList_toList]

/-! ## First characters -/

theorem skipBlanks_cons {c : Char} (h : isBlank c = false) (cs : List Char) :
    skipBlanks (c :: cs) = c :: cs := by
  simp [skipBlanks, h]

theorem skipBlanks_append {blanks : List Char} (h : ∀ c ∈ blanks, isBlank c = true)
    (cs : List Char) : skipBlanks (blanks ++ cs) = skipBlanks cs := by
  induction blanks with
  | nil => rfl
  | cons c blanks ih =>
      rw [List.forall_mem_cons] at h
      rw [List.cons_append, skipBlanks, List.dropWhile_cons_of_pos h.1]
      exact ih h.2

/-- What separates and closes values ends a number. -/
theorem endsNumber_cons {c : Char} (h : c ∈ [',', ']', '\x7d']) (rest : List Char) :
    EndsNumber (c :: rest) := by
  rintro first ⟨⟩
  simp only [List.mem_cons, List.not_mem_nil, or_false] at h
  rcases h with rfl | rfl | rfl <;> exact ⟨rfl, by decide, by decide, by decide⟩

theorem endsNumber_nil : EndsNumber [] := by
  rintro c ⟨⟩

/-- Blanks end a number too. -/
theorem endsNumber_append {blanks rest : List Char} (h : ∀ c ∈ blanks, isBlank c = true)
    (hrest : EndsNumber rest) : EndsNumber (blanks ++ rest) := by
  cases blanks with
  | nil => exact hrest
  | cons c blanks =>
      have hblank : ((c = ' ' ∨ c = '\t') ∨ c = '\n') ∨ c = '\r' := by
        simpa [isBlank] using h c List.mem_cons_self
      rintro first ⟨⟩
      rcases hblank with ((rfl | rfl) | rfl) | rfl <;> exact ⟨rfl, by decide, by decide, by decide⟩

theorem isBlank_of_startsNumber {c : Char} (h : StartsNumber c) : isBlank c = false := by
  have hspace : c ≠ ' ' := h.ne (by decide)
  have htab : c ≠ '\t' := h.ne (by decide)
  have hline : c ≠ '\n' := h.ne (by decide)
  have hreturn : c ≠ '\r' := h.ne (by decide)
  simp [isBlank, hspace, htab, hline, hreturn]

/-- No value begins with a blank or with a closing bracket. -/
theorem exists_cons_chars {d : Document} (h : d.AllFinite) (layout : Layout) (level : Nat) :
    ∃ c more, layout.chars level d = c :: more ∧ isBlank c = false ∧ c ≠ ']' := by
  cases d with
  | null => exact ⟨_, _, rfl, by decide, by decide⟩
  | bool b => cases b <;> exact ⟨_, _, rfl, by decide, by decide⟩
  | string s => exact ⟨_, _, rfl, by decide, by decide⟩
  | array items => cases items <;> exact ⟨_, _, rfl, by decide, by decide⟩
  | object members =>
      rcases members with _ | ⟨⟨key, d⟩, rest⟩ <;> exact ⟨_, _, rfl, by decide, by decide⟩
  | number n =>
      rcases exists_literal_of_isFinite h with ⟨l, hl, hchars, -⟩
      rcases hl.exists_startsNumber with ⟨c, more, hcons, hc⟩
      exact ⟨c, more, hchars.symm.trans hcons, isBlank_of_startsNumber hc, hc.ne (by decide)⟩

/-! ## Values -/

/-- A finite number is read back from its text, up to where its text ends. -/
theorem readValue_number {n : Number} (h : n.isFinite = true) {rest : List Char}
    (hrest : EndsNumber rest) (fuel : Nat) :
    readValue (fuel + 1) (n.documentText ++ rest) = some (.number (some n), rest) := by
  rcases exists_literal_of_isFinite h with ⟨l, hl, hchars, hnumber⟩
  rcases hl.exists_startsNumber with ⟨c, more, hcons, hc⟩
  have hscan := scanNumber_spelled hl hrest
  rw [← hchars]
  rw [hcons, List.cons_append] at hscan ⊢
  rw [readValue.eq_def]
  dsimp only
  rw [skipBlanks_cons (isBlank_of_startsNumber hc)]
  split
  · rename_i heq
    exact absurd (List.cons.inj heq).1 (hc.ne (by decide))
  · rename_i heq
    exact absurd (List.cons.inj heq).1 (hc.ne (by decide))
  · rename_i heq
    exact absurd (List.cons.inj heq).1 (hc.ne (by decide))
  · rename_i heq
    exact absurd (List.cons.inj heq).1 (hc.ne (by decide))
  · rename_i heq
    exact absurd (List.cons.inj heq).1 (hc.ne (by decide))
  · rename_i heq
    exact absurd (List.cons.inj heq).1 (hc.ne (by decide))
  · rw [hscan, Option.map_some, hnumber]

/-- A quoted string is read back. -/
theorem readValue_string (s : String) (rest : List Char) (fuel : Nat) :
    readValue (fuel + 1) (quoted s ++ rest) = some (.string (some s), rest) := by
  rw [quoted, List.cons_append, List.append_assoc, readValue.eq_def]
  dsimp only
  rw [skipBlanks_cons (by decide), List.singleton_append]
  simp only [readString_escaped, Option.map_some]

/-! ## Blanks -/

section Blanks

variable {blanks : List Char} (hblanks : ∀ c ∈ blanks, isBlank c = true)

include hblanks

/-- Blanks in front of a value are passed over. -/
theorem readValue_blanks (fuel : Nat) (cs : List Char) :
    readValue fuel (blanks ++ cs) = readValue fuel cs := by
  cases fuel with
  | zero => rfl
  | succ fuel => simp only [readValue, skipBlanks_append hblanks]

theorem readItems_blanks (fuel : Nat) (cs : List Char) :
    readItems fuel (blanks ++ cs) = readItems fuel cs := by
  cases fuel with
  | zero => rfl
  | succ fuel => simp only [readItems, readValue_blanks hblanks]

theorem readMembers_blanks (fuel : Nat) (cs : List Char) :
    readMembers fuel (blanks ++ cs) = readMembers fuel cs := by
  cases fuel with
  | zero => rfl
  | succ fuel => simp only [readMembers, skipBlanks_append hblanks]

/-- An array that does not close at once is read item by item. -/
theorem readValue_bracket {c : Char} (hblank : isBlank c = false) (hclose : c ≠ ']')
    (more : List Char) (fuel : Nat) :
    readValue (fuel + 1) ('[' :: (blanks ++ c :: more)) =
      (readItems fuel (c :: more)).map fun read => (.array read.1, read.2) := by
  rw [readValue.eq_def]
  dsimp only
  rw [skipBlanks_cons (by decide)]
  simp only [skipBlanks_append hblanks, skipBlanks_cons hblank]
  split
  · rename_i heq
    exact absurd (List.cons.inj heq).1 hclose
  · rfl

/-- An object that goes on with a key is read member by member. -/
theorem readValue_brace (key : String) (more : List Char) (fuel : Nat) :
    readValue (fuel + 1) ('\x7b' :: (blanks ++ (quoted key ++ more))) =
      (readMembers fuel (quoted key ++ more)).map fun read => (.object read.1, read.2) := by
  rw [quoted, List.cons_append, readValue.eq_def]
  dsimp only
  rw [skipBlanks_cons (by decide)]
  simp only [skipBlanks_append hblanks, skipBlanks_cons (show isBlank '"' = false by decide)]
  rfl

/-- An item before a closing bracket is the last one. -/
theorem readItems_bracket {fuel : Nat} {cs rest : List Char} {t : Tree}
    (h : readValue fuel cs = some (t, blanks ++ ']' :: rest)) :
    readItems (fuel + 1) cs = some ([t], rest) := by
  rw [readItems, h]
  simp only [bind, Option.bind]
  rw [skipBlanks_append hblanks, skipBlanks_cons (by decide)]
  rfl

/-- A member before a closing brace is the last one. -/
theorem readMembers_brace {fuel : Nat} {key : String} {cs rest : List Char} {t : Tree}
    (h : readValue fuel cs = some (t, blanks ++ '\x7d' :: rest)) :
    readMembers (fuel + 1) (quoted key ++ ':' :: cs) = some ([(some key, t)], rest) := by
  rw [quoted, List.cons_append, List.append_assoc, List.singleton_append, readMembers,
    skipBlanks_cons (by decide)]
  simp only [bind, Option.bind, readString_escaped]
  rw [skipBlanks_cons (by decide)]
  simp only [h]
  rw [skipBlanks_append hblanks, skipBlanks_cons (by decide)]
  rfl

end Blanks

/-- An item before a comma is followed by items. -/
theorem readItems_comma {fuel : Nat} {cs more : List Char} {t : Tree}
    (h : readValue fuel cs = some (t, ',' :: more)) :
    readItems (fuel + 1) cs = (readItems fuel more).map fun read => (t :: read.1, read.2) := by
  rw [readItems, h]
  simp only [bind, Option.bind]
  rw [skipBlanks_cons (by decide)]
  rfl

/-- A member before a comma is followed by members. -/
theorem readMembers_comma {fuel : Nat} {key : String} {cs more : List Char} {t : Tree}
    (h : readValue fuel cs = some (t, ',' :: more)) :
    readMembers (fuel + 1) (quoted key ++ ':' :: cs) =
      (readMembers fuel more).map fun read => ((some key, t) :: read.1, read.2) := by
  rw [quoted, List.cons_append, List.append_assoc, List.singleton_append, readMembers,
    skipBlanks_cons (by decide)]
  simp only [bind, Option.bind, readString_escaped]
  rw [skipBlanks_cons (by decide)]
  simp only [h]
  rw [skipBlanks_cons (by decide)]
  rfl

/-! ## Documents -/

open Document (itemTrees memberTrees)
open Layout (chars itemChars memberChars)

variable {layout : Layout}

/-- No document has an empty text. -/
theorem length_chars_pos (layout : Layout) {d : Document} (h : d.AllFinite) (level : Nat) :
    0 < (layout.chars level d).length := by
  rcases exists_cons_chars h layout level with ⟨c, cs, hcons, -⟩
  rw [hcons]
  exact Nat.succ_pos _

-- The induction is on the fuel.  Twice the length of what is read pays for the step into a list
-- and for the step to its next element.
mutual

/-- A document is read off the front of a text, in whatever layout it stands there. -/
theorem readValue_chars : ∀ {fuel : Nat} (level : Nat) {d : Document} {rest : List Char},
    d.AllFinite → EndsNumber rest → 2 * (layout.chars level d).length ≤ fuel →
    readValue fuel (layout.chars level d ++ rest) = some (d.toTree, rest)
  | 0, level, d, _, h, _, hfuel => by
      have hpos := length_chars_pos layout h level
      omega
  | fuel + 1, _, .null, rest, _, _, _ => by
      simp [chars, Document.chars, readValue, skipBlanks, isBlank, Document.toTree]
  | fuel + 1, _, .bool b, rest, _, _, _ => by
      cases b <;> simp [chars, Document.chars, readValue, skipBlanks, isBlank, Document.toTree]
  | fuel + 1, _, .number n, rest, h, hrest, _ => readValue_number h hrest fuel
  | fuel + 1, _, .string s, rest, _, _, _ => readValue_string s rest fuel
  | fuel + 1, _, .array [], rest, _, _, _ => by
      simp [chars, readValue, skipBlanks, isBlank, Document.toTree, itemTrees]
  | fuel + 1, level, .array (d :: ds), rest, h, _, hfuel => by
      simp only [chars, List.length_cons, List.length_append] at hfuel
      have hitems := readItems_chars (level + 1) level h.1 h.2 (show _ ≤ fuel by omega) rest
      rcases exists_cons_chars h.1 layout (level + 1) with ⟨c, cs, hcons, hblank, hclose⟩
      rw [hcons, List.cons_append] at hitems
      simp only [chars, hcons, List.cons_append, List.append_assoc, List.nil_append]
      rw [readValue_bracket (layout.isBlank_gap (level + 1)) hblank hclose, hitems]
      rfl
  | fuel + 1, _, .object [], rest, _, _, _ => by
      simp [chars, readValue, skipBlanks, isBlank, Document.toTree, memberTrees]
  | fuel + 1, level, .object ((key, d) :: ds), rest, h, _, hfuel => by
      simp only [chars, List.length_cons, List.length_append] at hfuel
      have hmembers := readMembers_chars (level + 1) level key h.1 h.2 (show _ ≤ fuel by omega) rest
      simp only [chars, List.cons_append, List.append_assoc, List.nil_append]
      rw [readValue_brace (layout.isBlank_gap (level + 1)), hmembers]
      rfl

/-- The items of an array are read up to its closing bracket. -/
theorem readItems_chars : ∀ {fuel : Nat} (level outer : Nat) {d : Document} {ds : List Document},
    d.AllFinite → Document.AllFiniteItems ds →
    2 * ((layout.chars level d).length + (layout.itemChars level ds).length) + 1 ≤ fuel →
    ∀ rest : List Char, readItems fuel (layout.chars level d ++
        (layout.itemChars level ds ++ (layout.gap outer ++ ']' :: rest))) =
      some (d.toTree :: itemTrees ds, rest)
  | fuel + 1, level, outer, d, [], hd, _, hfuel, rest => by
      have hends := endsNumber_append (layout.isBlank_gap outer)
        (endsNumber_cons (c := ']') (by decide) rest)
      exact readItems_bracket (layout.isBlank_gap outer)
        (readValue_chars level hd hends (by omega))
  | fuel + 1, level, outer, d, e :: es, hd, hds, hfuel, rest => by
      simp only [itemChars, List.length_cons, List.length_append] at hfuel
      have hends := endsNumber_cons (c := ',') (by decide) (layout.gap level ++
        (layout.chars level e ++ (layout.itemChars level es ++ (layout.gap outer ++ ']' :: rest))))
      have hvalue := readValue_chars level hd hends (show _ ≤ fuel by omega)
      have hitems := readItems_chars level outer hds.1 hds.2 (show _ ≤ fuel by omega) rest
      simp only [itemChars, List.append_assoc, List.cons_append]
      rw [readItems_comma hvalue, readItems_blanks (layout.isBlank_gap level), hitems]
      rfl

/-- The members of an object are read up to its closing brace. -/
theorem readMembers_chars : ∀ {fuel : Nat} (level outer : Nat) (key : String) {d : Document}
    {ds : List (String × Document)}, d.AllFinite → Document.AllFiniteMembers ds →
    2 * ((layout.chars level d).length + (layout.memberChars level ds).length) + 1 ≤ fuel →
    ∀ rest : List Char, readMembers fuel (quoted key ++ ':' :: (layout.space ++
        (layout.chars level d ++
          (layout.memberChars level ds ++ (layout.gap outer ++ '\x7d' :: rest))))) =
      some ((some key, d.toTree) :: memberTrees ds, rest)
  | fuel + 1, level, outer, key, d, [], hd, _, hfuel, rest => by
      have hends := endsNumber_append (layout.isBlank_gap outer)
        (endsNumber_cons (c := '\x7d') (by decide) rest)
      have hvalue := readValue_chars level hd hends (show _ ≤ fuel by omega)
      rw [← readValue_blanks layout.isBlank_space] at hvalue
      exact readMembers_brace (layout.isBlank_gap outer) hvalue
  | fuel + 1, level, outer, key, d, (next, e) :: es, hd, hds, hfuel, rest => by
      simp only [memberChars, List.length_cons, List.length_append] at hfuel
      have hends := endsNumber_cons (c := ',') (by decide) (layout.gap level ++
        (quoted next ++ ':' :: (layout.space ++ (layout.chars level e ++
          (layout.memberChars level es ++ (layout.gap outer ++ '\x7d' :: rest))))))
      have hvalue := readValue_chars level hd hends (show _ ≤ fuel by omega)
      rw [← readValue_blanks layout.isBlank_space] at hvalue
      have hmembers := readMembers_chars level outer next hds.1 hds.2 (show _ ≤ fuel by omega) rest
      simp only [memberChars, List.append_assoc, List.cons_append]
      rw [readMembers_comma hvalue, readMembers_blanks (layout.isBlank_gap level), hmembers]
      rfl

end

/-! ## Whole texts -/

/-- A document is read from its text in whatever layout. -/
theorem Tree.ofChars?_chars {d : Document} (h : d.AllFinite) (layout : Layout) (level : Nat) :
    Tree.ofChars? (layout.chars level d) = some d.toTree := by
  have hread : readValue (2 * (layout.chars level d).length + 2) (layout.chars level d ++ []) =
      some (d.toTree, []) := readValue_chars level h endsNumber_nil (Nat.le_add_right _ 2)
  rw [List.append_nil] at hread
  rw [Tree.ofChars?, hread]
  rfl

/-- The text of a document reads as its tree. -/
theorem Tree.ofText?_text {d : Document} (h : d.AllFinite) :
    Tree.ofText? d.text = some d.toTree := by
  rw [Tree.ofText?, Document.text, String.toList_ofList, ← Layout.compact_chars 0 d]
  exact Tree.ofChars?_chars h Layout.compact 0

/-- And so does its text over lines. -/
theorem Tree.ofText?_prettyText {d : Document} (h : d.AllFinite) :
    Tree.ofText? d.prettyText = some d.toTree := by
  rw [Tree.ofText?, Document.prettyText, String.toList_ofList, ← Layout.overLines_chars 0 d]
  exact Tree.ofChars?_chars h Layout.overLines 0

/-! ## Numbers that are read -/

/-- A literal is the number of no infinity. -/
theorem isFinite_of_number? {l : Literal} {n : Number} (h : l.number? = some n) :
    n.isFinite = true := by
  unfold Literal.number? at h
  dsimp only at h
  split at h
  · cases h
    rfl
  · split at h
    · rename_i hfinite
      cases h
      exact hfinite
    · cases h

-- Again by induction on the fuel: each reader passes on what the readers below it yield.
mutual

/-- Values that are read have finite numbers. -/
theorem allFinite_of_readValue : ∀ {fuel : Nat} {cs rest : List Char} {t : Tree},
    readValue fuel cs = some (t, rest) → t.AllFinite
  | 0, _, _, _, h => by cases h
  | fuel + 1, cs, rest, t, h => by
      rw [readValue.eq_def] at h
      dsimp only at h
      split at h
      · cases h; trivial
      · cases h; trivial
      · cases h; trivial
      · rcases Option.map_eq_some_iff.1 h with ⟨read, -, heq⟩
        cases heq; trivial
      · split at h
        · cases h; trivial
        · rcases Option.map_eq_some_iff.1 h with ⟨read, hread, heq⟩
          cases heq
          exact allFinite_of_readItems hread
      · split at h
        · cases h; trivial
        · rcases Option.map_eq_some_iff.1 h with ⟨read, hread, heq⟩
          cases heq
          exact allFinite_of_readMembers hread
      · rcases Option.map_eq_some_iff.1 h with ⟨scanned, -, heq⟩
        cases heq
        exact fun n hn => isFinite_of_number? hn

theorem allFinite_of_readItems : ∀ {fuel : Nat} {cs rest : List Char} {ts : List Tree},
    readItems fuel cs = some (ts, rest) → Tree.AllFiniteItems ts
  | 0, _, _, _, h => by cases h
  | fuel + 1, cs, rest, ts, h => by
      rw [readItems] at h
      rcases Option.bind_eq_some_iff.1 h with ⟨⟨item, more⟩, hitem, h⟩
      dsimp only at h
      split at h
      · rcases Option.map_eq_some_iff.1 h with ⟨read, hread, heq⟩
        cases heq
        exact ⟨allFinite_of_readValue hitem, allFinite_of_readItems hread⟩
      · cases h
        exact ⟨allFinite_of_readValue hitem, trivial⟩
      · cases h

theorem allFinite_of_readMembers : ∀ {fuel : Nat} {cs rest : List Char}
    {ts : List (Option String × Tree)}, readMembers fuel cs = some (ts, rest) →
    Tree.AllFiniteMembers ts
  | 0, _, _, _, h => by cases h
  | fuel + 1, cs, rest, ts, h => by
      rw [readMembers] at h
      split at h
      · rcases Option.bind_eq_some_iff.1 h with ⟨⟨key, behind⟩, -, h⟩
        dsimp only at h
        split at h
        · rcases Option.bind_eq_some_iff.1 h with ⟨⟨value, more⟩, hvalue, h⟩
          dsimp only at h
          split at h
          · rcases Option.map_eq_some_iff.1 h with ⟨read, hread, heq⟩
            cases heq
            exact ⟨allFinite_of_readValue hvalue, allFinite_of_readMembers hread⟩
          · cases h
            exact ⟨allFinite_of_readValue hvalue, trivial⟩
          · cases h
        · cases h
      · cases h

end

/-- Numbers that are read are finite. -/
theorem Tree.allFinite_of_ofText? {text : String} {t : Tree} (h : Tree.ofText? text = some t) :
    t.AllFinite := by
  unfold Tree.ofText? Tree.ofChars? at h
  split at h
  · rename_i tree rest hread
    split at h
    · cases h
      exact allFinite_of_readValue hread
    · cases h
  · cases h

end Json

end TriggerGraph
