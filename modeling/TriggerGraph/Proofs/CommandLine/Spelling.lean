import TriggerGraph.CommandLine.Arguments
import TriggerGraph.Proofs.Number.Decimals

/-!
# Arguments spelled in words

Whatever a call may ask for can be asked for: there are words that spell it.  Each option
is one word with its value behind an equals sign, numbers are in decimal digits, and the
paths come last, behind two dashes, so that no path can be taken for an option.

Main results:

- Theorem `Digits.unsigned?_toString` and `Digits.signed?_toString`: printed numbers of one
  word are read back.
- Theorem `Word.ofText_assignment`: an option with its value keeps the value as it is.
- Theorem `Arguments.ofWords_words`: the words that spell arguments are read as them.
-/

namespace TriggerGraph

/-! ## Numbers -/

namespace Digits

theorem read?_toDigits (n : Nat) : read? (Nat.toDigits 10 n) = some n := by
  have hdigits : (Nat.toDigits 10 n).all isDigit = true :=
    List.all_eq_true.2 fun c hc => isDigit_of_mem_toDigits hc
  have hne : (Nat.toDigits 10 n).isEmpty = false :=
    List.isEmpty_eq_false_iff.2 Nat.toDigits_ne_nil
  simp [read?, hdigits, hne]

/-- The digits of a number do not start with a sign. -/
theorem exists_toDigits_eq_cons (n : Nat) :
    ∃ c rest, Nat.toDigits 10 n = c :: rest ∧ c ≠ '+' ∧ c ≠ '-' := by
  cases hdigits : Nat.toDigits 10 n with
  | nil => exact absurd hdigits Nat.toDigits_ne_nil
  | cons c rest =>
      have hc : isDigit c = true := isDigit_of_mem_toDigits (hdigits ▸ List.mem_cons_self)
      refine ⟨c, rest, rfl, ?_, ?_⟩
      · rintro rfl
        exact absurd hc (by decide)
      · rintro rfl
        exact absurd hc (by decide)

/-- A printed count of one word is read back. -/
theorem unsigned?_toString (count : UInt64) :
    unsigned? (toString count.toNat).toList = some count.toNat := by
  rw [Nat.toString_eq_repr, Nat.toList_repr]
  rcases exists_toDigits_eq_cons count.toNat with ⟨c, rest, hdigits, hplus, -⟩
  have hread := read?_toDigits count.toNat
  have hbound := count.toNat_lt
  rw [hdigits] at hread ⊢
  simp [unsigned?, hplus, hread, hbound]

/-- A printed time of one word is read back. -/
theorem signed?_toString (now : Int64) :
    signed? (toString now.toInt).toList = some now.toInt := by
  have hlow : -0x8000000000000000 ≤ now.toInt := by simpa using now.le_toInt
  have hhigh : now.toInt < 0x8000000000000000 := by simpa using now.toInt_lt
  unfold signed?
  refine Option.bind_eq_some_iff.2 ⟨now.toInt, ?_, if_pos ⟨hlow, hhigh⟩⟩
  generalize now.toInt = time
  cases time with
  | ofNat n =>
      have htext : (toString (Int.ofNat n)).toList = Nat.toDigits 10 n := Nat.toList_repr
      rcases exists_toDigits_eq_cons n with ⟨c, rest, hdigits, hplus, hminus⟩
      have hread := read?_toDigits n
      rw [htext]
      rw [hdigits] at hread ⊢
      split
      · rename_i hcons
        exact absurd (List.cons.inj hcons).1 hplus
      · rename_i hcons
        exact absurd (List.cons.inj hcons).1 hminus
      · rw [hread]
        rfl
  | negSucc n =>
      have htext : (toString (Int.negSucc n)).toList = '-' :: Nat.toDigits 10 (n + 1) := by
        rw [← Nat.toList_repr]
        exact String.toList_append
      rw [htext]
      simp only [read?_toDigits]
      rfl

end Digits

namespace CommandLine

/-! ## Options -/

/-- An option with its value in one word. -/
def assignment (name value : String) : String := "--" ++ name ++ "=" ++ value

/-- An option with its value keeps the value as it is. -/
theorem Word.ofText_assignment {name : String} (h : '=' ∉ name.toList) (value : String) :
    Word.ofText (assignment name value) = .assigned name value := by
  have htext : (assignment name value).toList =
      '-' :: '-' :: (name.toList ++ '=' :: value.toList) := by
    simp [assignment]
  have hname : ∀ c ∈ name.toList, (decide (c ≠ '=')) = true := by
    intro c hc
    exact decide_eq_true (fun hequal => h (hequal ▸ hc))
  have hsplit : splitAssignment (name.toList ++ '=' :: value.toList) = .assigned name value := by
    unfold splitAssignment
    rw [List.takeWhile_append_of_pos hname, List.dropWhile_append_of_pos hname]
    simp
  unfold ofText
  rw [htext]
  cases hrest : name.toList ++ '=' :: value.toList with
  | nil => simp at hrest
  | cons c rest =>
      rw [hrest] at hsplit
      exact hsplit

namespace Arguments

/-- The word for a switch, if it is given. -/
def switchWord (name : String) (given : Bool) : List String :=
  if given then ["--" ++ name] else []

/-- The word for an option with a value, if there is one. -/
def valueWord {α : Type} (name : String) (text : α → String) (value : Option α) : List String :=
  value.toList.map fun a => assignment name (text a)

/-- The words that spell the arguments. -/
def words (arguments : Arguments) : List String :=
  switchWord "validate-only" arguments.validateOnly ++
    (switchWord "catalog" arguments.catalog ++
    (valueWord "snapshot-out" id arguments.snapshotOut ++
    (valueWord "declared-nodes" (fun count => toString count.toNat) arguments.declaredNodes ++
    (valueWord "now" (fun now => toString now.toInt) arguments.now ++
    "--" :: (arguments.graphPath.toList ++ arguments.contextPath.toList)))))

/-! ## Reading what was spelled -/

/-- A switch is read into the field that it sets. -/
theorem readWords_switchWord {name : String} (set : Bool → Arguments)
    (hshape : Word.ofText ("--" ++ name) = .name name) (hbare : Word.takesValue name = false)
    (hset : (set false).withSwitch name = .ok (set true)) (given : Bool) (rest : List String) :
    readWords (set false) (switchWord name given ++ rest) = readWords (set given) rest := by
  cases given with
  | false => rfl
  | true =>
      change readWords (set false) (("--" ++ name) :: rest) = _
      rw [readWords, hshape]
      dsimp only
      rw [hbare, hset]
      rfl

/-- An option with a value is read into the field that it sets. -/
theorem readWords_valueWord {α : Type} {name : String} {text : α → String}
    (set : Option α → Arguments) (hname : '=' ∉ name.toList)
    (hset : ∀ a, (set .none).withValue name (text a) = .ok (set (some a))) (value : Option α)
    (rest : List String) :
    readWords (set .none) (valueWord name text value ++ rest) = readWords (set value) rest := by
  cases value with
  | none => rfl
  | some a =>
      change readWords (set .none) (assignment name (text a) :: rest) = _
      rw [readWords, Word.ofText_assignment hname]
      dsimp only
      rw [hset]

/-- A printed count is taken as that count. -/
theorem withValue_declaredNodes {arguments : Arguments} (h : arguments.declaredNodes = .none)
    (count : UInt64) : arguments.withValue "declared-nodes" (toString count.toNat) =
      .ok { arguments with declaredNodes := some count } := by
  rw [withValue, if_neg (by simp), if_pos (by simp [h]), Digits.unsigned?_toString]
  simp only [UInt64.ofNat_toNat]

/-- A printed time is taken as that time. -/
theorem withValue_now {arguments : Arguments} (h : arguments.now = .none) (now : Int64) :
    arguments.withValue "now" (toString now.toInt) = .ok { arguments with now := some now } := by
  rw [withValue, if_neg (by simp), if_neg (by simp), if_pos (by simp [h]),
    Digits.signed?_toString]
  simp only [Int64.ofInt_toInt]

/-- The words that spell arguments are read as them; a context path comes after a graph
path only. -/
theorem ofWords_words {arguments : Arguments}
    (h : arguments.contextPath.isSome → arguments.graphPath.isSome) :
    ofWords arguments.words = .ok arguments := by
  rcases arguments with ⟨graph, context, snapshotOut, validateOnly, catalog, count, now⟩
  have hpaths : readWords ⟨.none, .none, snapshotOut, validateOnly, catalog, count, now⟩
      ("--" :: (graph.toList ++ context.toList)) =
        .ok ⟨graph, context, snapshotOut, validateOnly, catalog, count, now⟩ := by
    have hshape : Word.ofText "--" = .onlyPaths := by decide
    rw [readWords, hshape]
    cases graph with
    | some graph => cases context <;> rfl
    | none =>
        cases context with
        | some context => exact absurd (h rfl) Bool.false_ne_true
        | none => rfl
  rw [← hpaths]
  unfold ofWords words
  dsimp only
  -- each option is read on top of those before it
  refine (readWords_switchWord (fun given => ⟨.none, .none, .none, given, false, .none, .none⟩)
    (by decide) (by decide) rfl validateOnly _).trans ?_
  refine (readWords_switchWord (fun given => ⟨.none, .none, .none, validateOnly, given, .none,
    .none⟩) (by decide) (by decide) rfl catalog _).trans ?_
  refine (readWords_valueWord (fun value => ⟨.none, .none, value, validateOnly, catalog, .none,
    .none⟩) (by decide) (fun _ => rfl) snapshotOut _).trans ?_
  refine (readWords_valueWord (fun value => ⟨.none, .none, snapshotOut, validateOnly, catalog,
    value, .none⟩) (by decide) (withValue_declaredNodes rfl) count _).trans ?_
  exact readWords_valueWord (fun value => ⟨.none, .none, snapshotOut, validateOnly, catalog,
    count, value⟩) (by decide) (withValue_now rfl) now _

end Arguments

end CommandLine

end TriggerGraph
