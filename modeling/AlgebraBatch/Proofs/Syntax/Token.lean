import AlgebraBatch.Proofs.Decimal.Unsigned
import AlgebraBatch.Proofs.Syntax.Derivation
import AlgebraBatch.Proofs.Syntax.WellFormed
import Mathlib.Algebra.Group.Nat.Defs
import Mathlib.Data.List.Induction

/-!
# Tokens of an accepted text

What is read as a name is a name on its own and ends where names end; an operator is read as one of
its `spellings`. After a token of an accepted text there is an ASCII character, a blank or nothing
(`MayFollow`), so a name that begins with a truth value goes on after it.
-/

namespace AlgebraBatch.Syntax

open AlgebraBatch.Text AlgebraBatch.Expr

variable {s s' : List Char}

/-! ## What follows -/

/-- The text is empty or begins with a blank or with an ASCII character. -/
def MayFollow : List Char → Prop
  | [] => True
  | c :: _ => c.toNat < 0x80 ∨ isPatternBlank c = true

theorem mayFollow_of_skipBlanks {c : Char} {r : List Char} (h : skipBlanks s = c :: r)
    (hc : c.toNat < 0x80) : MayFollow s := by
  cases s with
  | nil => trivial
  | cons d s =>
    cases hd : isPatternBlank d with
    | true => exact .inr hd
    | false =>
      rw [skipBlanks, List.dropWhile_cons_of_neg (ne_true_of_eq_false hd)] at h
      cases h
      exact .inl hc

theorem mayFollow_of_skipBlanks_nil (h : skipBlanks s = []) : MayFollow s := by
  cases s with
  | nil => trivial
  | cons d s => exact .inr (List.dropWhile_eq_nil_iff.1 h d List.mem_cons_self)

theorem not_isWordChar_of_isPatternBlank {c : Char} (h : isPatternBlank c = true) :
    isWordChar c = false := by
  have all : ∀ n ∈ patternBlankCodes, isWordChar (Char.ofNat n) = false := by
    decide +kernel
  have hc := all c.toNat (toNat_mem_of_isPatternBlank h)
  rwa [Char.ofNat_toNat] at hc

theorem isNameChar_of_isAsciiWordChar {c : Char} (h : isAsciiWordChar c = true) :
    isNameChar c = true := by
  rw [isNameChar, h, Bool.or_true]

/-- A word ends where a name ends. -/
theorem atWordEnd_of_mayFollow (h : MayFollow s) (hn : ∀ c r, s = c :: r → isNameChar c = false) :
    atWordEnd s = true := by
  cases s with
  | nil => rfl
  | cons c r =>
    have hword : isWordChar c = false := by
      rcases h with h | h
      · rw [isWordChar_of_ascii h, Bool.eq_false_iff]
        intro hw
        have hname := hn c r rfl
        rw [isNameChar_of_isAsciiWordChar hw] at hname
        cases hname
      · exact not_isWordChar_of_isPatternBlank h
    rw [atWordEnd, hword]
    rfl

/-! ## Names -/

theorem identifier_lexeme (h : Pattern.identifier.accept s = some s') :
    ∃ u, s = u ++ s' ∧ Pattern.identifier.IsLexeme u ∧
      ∀ c r, s' = c :: r → isNameChar c = false := by
  change acceptIdentifier s = some s' at h
  cases s with
  | nil => cases h
  | cons c s =>
    rw [acceptIdentifier] at h
    split at h
    · next hc =>
      cases h
      refine ⟨c :: s.takeWhile isNameChar, ?_, ?_, ?_⟩
      · rw [List.cons_append, List.takeWhile_append_dropWhile]
      · change acceptIdentifier (c :: s.takeWhile isNameChar) = some []
        rw [acceptIdentifier, if_pos hc]
        exact congrArg some (List.dropWhile_eq_nil_iff.2 fun d hd => List.mem_takeWhile_imp hd)
      · intro d r hd
        have hne : s.dropWhile isNameChar ≠ [] := by rw [hd]; exact List.cons_ne_nil _ _
        have hhead := List.head_dropWhile_not isNameChar hne
        simpa only [hd, List.head_cons] using hhead
    · cases h

/-- A text that is no truth value begins with no name that begins with one. -/
theorem isReadName_of_accept (hi : Pattern.identifier.accept s = some s')
    (hb : Pattern.boolean.accept s = none) (hs : MayFollow s') :
    ∃ u, s = u ++ s' ∧ IsReadName (String.ofList u) := by
  obtain ⟨u, rfl, hl, hn⟩ := identifier_lexeme hi
  refine ⟨u, rfl, by rwa [String.toList_ofList], fun hm => ?_⟩
  rw [String.toList_ofList] at hm
  have word {w : List Char} (hw : firstWord u = w) :
      acceptWord w (u ++ s') = some (u.dropWhile isAsciiWordChar ++ s') := by
    have hu : u = w ++ u.dropWhile isAsciiWordChar := by
      rw [← hw, firstWord, List.takeWhile_append_dropWhile]
    refine acceptWord_eq_some.2 ⟨?_, ?_⟩
    · rw [← List.append_assoc, ← hu]
    · cases hd : u.dropWhile isAsciiWordChar with
      | nil => exact atWordEnd_of_mayFollow hs hn
      | cons c r =>
        have hne : u.dropWhile isAsciiWordChar ≠ [] := by rw [hd]; exact List.cons_ne_nil _ _
        have hc := List.head_dropWhile_not isAsciiWordChar hne
        simp only [hd, List.head_cons] at hc
        have hmem : c ∈ u := (List.dropWhile_suffix _).mem (hd ▸ List.mem_cons_self)
        obtain ⟨-, -, -, -, hname⟩ := identifier_cons hl
        have hlt := isNameChar_toNat_lt (hname c hmem)
        rw [List.cons_append, atWordEnd, isWordChar_of_ascii hlt, hc]
        rfl
  change (acceptWord "true".toList _).or (acceptWord "false".toList _) = none at hb
  obtain ⟨ht, hf⟩ := Option.or_eq_none_iff.1 hb
  simp only [List.mem_cons, List.not_mem_nil, or_false] at hm
  rcases hm with hm | hm
  · have hw := word (w := "true".toList) (by rw [← hm, String.toList_ofList])
    rw [ht] at hw
    cases hw
  · have hw := word (w := "false".toList) (by rw [← hm, String.toList_ofList])
    rw [hf] at hw
    cases hw

/-! ## Numbers -/

theorem digitsToNat_lt {cs : List Char} (h : ∀ c ∈ cs, isDecimalDigit c = true) :
    digitsToNat cs < 10 ^ cs.length := by
  induction cs using List.reverseRecOn with
  | nil => decide
  | append_singleton cs c ih =>
    have ih := ih fun d hd => h d (List.mem_append_left _ hd)
    obtain ⟨d, hd⟩ := Option.isSome_iff_exists.1 (h c (List.mem_append_right _ List.mem_cons_self))
    have hlt := Numeral.digitValue?_lt hd
    rw [digitsToNat, List.foldl_append, List.foldl_cons, List.foldl_nil, hd, List.length_append,
      List.length_singleton, Nat.pow_succ]
    change 10 * digitsToNat cs + d < _
    omega

/-- A number has no more digits than it was written with. -/
theorem length_toDigits_digitsToNat {cs : List Char} (h : ∀ c ∈ cs, isDecimalDigit c = true)
    (hne : cs ≠ []) : (Nat.toDigits 10 (digitsToNat cs)).length ≤ cs.length :=
  (Nat.length_toDigits_le_iff (by decide) (List.length_pos_iff.2 hne)).2 (digitsToNat_lt h)

theorem integer_lexeme (h : Pattern.integer.accept s = some s') :
    ∃ u, s = u ++ s' ∧ u ≠ [] ∧ ∀ c ∈ u, isDecimalDigit c = true := by
  change acceptInteger s = some s' at h
  unfold acceptInteger at h
  split at h
  · next hd =>
    cases h
    refine ⟨s.takeWhile isDecimalDigit, List.takeWhile_append_dropWhile.symm, ?_,
      fun c hc => List.mem_takeWhile_imp hc⟩
    cases s with
    | nil => cases hd
    | cons c s =>
      rw [List.takeWhile_cons_of_pos (show isDecimalDigit c = true from hd)]
      exact List.cons_ne_nil _ _
  · cases h

/-! ## Operators and words -/

/-- The texts that an operator or a word is read from. -/
def Pattern.spellings : Pattern → List String
  | assignment => [":=", ":"]
  | orWord => ["or"]
  | andWord => ["and"]
  | notWord => ["not"]
  | relation => ["<=", ">=", "<", ">", "=", "#"]
  | addition => ["+", "-"]
  | multiplication => ["*", "/"]
  | dot => ["."]
  | power => ["^^", "^", "**"]
  | sign => ["''", "'", "-", "+"]
  | ifWord => ["if"]
  | thenWord => ["then"]
  | elseifWord => ["elseif"]
  | elseWord => ["else"]
  | blanks | float | integer | string | boolean | identifier => []

theorem accept_spelling {p : Pattern} (hp : p.spellings ≠ []) (h : p.accept s = some s') :
    ∃ w ∈ p.spellings, s = w.toList ++ s' := by
  have word {w : String} (hw : acceptWord w.toList s = some s') : s = w.toList ++ s' :=
    (acceptWord_eq_some.1 hw).1
  have any {ws : List String} (hw : acceptAny (ws.map String.toList) s = some s') :
      ∃ w ∈ ws, s = w.toList ++ s' := by
    obtain ⟨cs, hm, hs⟩ := acceptAny_eq_some hw
    obtain ⟨w, hw, rfl⟩ := List.mem_map.1 hm
    exact ⟨w, hw, hs⟩
  cases p with
  | assignment =>
    change acceptAssignment s = some s' at h
    unfold acceptAssignment at h
    split at h
    · cases h; exact ⟨":=", by decide, rfl⟩
    · cases h
    · cases h; exact ⟨":", by decide, rfl⟩
    · cases h
  | multiplication =>
    change acceptMultiplication s = some s' at h
    unfold acceptMultiplication at h
    split at h
    · cases h
    · cases h; exact ⟨"*", by decide, rfl⟩
    · cases h; exact ⟨"/", by decide, rfl⟩
    · cases h
  | dot =>
    change acceptDot s = some s' at h
    unfold acceptDot at h
    split at h
    · split at h
      · cases h
      · cases h; exact ⟨".", by decide, rfl⟩
    · cases h
  | orWord => exact ⟨"or", by decide, word h⟩
  | andWord => exact ⟨"and", by decide, word h⟩
  | notWord => exact ⟨"not", by decide, word h⟩
  | ifWord => exact ⟨"if", by decide, word h⟩
  | thenWord => exact ⟨"then", by decide, word h⟩
  | elseifWord => exact ⟨"elseif", by decide, word h⟩
  | elseWord => exact ⟨"else", by decide, word h⟩
  | relation => exact any h
  | addition => exact any h
  | power => exact any h
  | sign => exact any h
  | blanks | float | integer | string | boolean | identifier => exact absurd rfl hp

/-- What begins with an operator or a word, after blanks, may follow a token. -/
theorem mayFollow_of_accept {p : Pattern} (hp : p.spellings ≠ [])
    (h : p.accept (skipBlanks s) = some s') : MayFollow s := by
  obtain ⟨w, hw, hs⟩ := accept_spelling hp h
  have ascii : ∀ w ∈ p.spellings, w.toList ≠ [] ∧ ∀ c ∈ w.toList, c.toNat < 0x80 := by
    cases p <;> decide
  obtain ⟨hne, hlt⟩ := ascii w hw
  cases hc : w.toList with
  | nil => exact absurd hc hne
  | cons c r =>
    rw [hc, List.cons_append] at hs
    exact mayFollow_of_skipBlanks hs (hlt c (hc ▸ List.mem_cons_self))

end AlgebraBatch.Syntax
