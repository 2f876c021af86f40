import AlgebraBatch.Proofs.Syntax.Token

/-!
# Where tokens end

A blank, a closing bracket and a comma belong to no token but their own. So a token that is read
from a text is read from it also where the text goes on with one of these, and what is refused is
refused there (`accept_append`). A string is the exception: one that is not closed may be closed by
what comes later.
-/

namespace AlgebraBatch.Syntax

open AlgebraBatch.Text

/-- The character is a blank, a closing bracket or a comma. -/
def isEnd (c : Char) : Bool :=
  isPatternBlank c || c == ')' || c == ']' || c == '\x7d' || c == ','

/-- The text is empty or begins with a character that ends a token. -/
def EndsToken : List Char → Prop
  | [] => True
  | c :: _ => isEnd c = true

/-- What is said of the characters that end tokens is decided on their code points. -/
theorem forall_isEnd {p : Char → Bool}
    (hp : ∀ n ∈ [0x29, 0x5d, 0x7d, 0x2c] ++ patternBlankCodes, p (Char.ofNat n) = false) {c : Char}
    (hc : isEnd c = true) : p c = false := by
  have hmem : c.toNat ∈ [0x29, 0x5d, 0x7d, 0x2c] ++ patternBlankCodes := by
    simp only [isEnd, Bool.or_eq_true, beq_iff_eq] at hc
    rcases hc with (((h | rfl) | rfl) | rfl) | rfl
    · exact List.mem_append_right _ (toNat_mem_of_isPatternBlank h)
    all_goals decide
  have h := hp _ hmem
  rwa [Char.ofNat_toNat] at h

variable {s k : List Char}

section Runs

theorem dropWhile_endsToken {p : Char → Bool} (hp : ∀ {c}, isEnd c = true → p c = false)
    (hk : EndsToken k) : k.dropWhile p = k := by
  cases k with
  | nil => rfl
  | cons c k => exact List.dropWhile_cons_of_neg (by simp [hp hk])

/-- A run of characters does not go on beyond the end of a token. -/
theorem dropWhile_append_end {p : Char → Bool} (hp : ∀ {c}, isEnd c = true → p c = false)
    (s : List Char) (hk : EndsToken k) : (s ++ k).dropWhile p = s.dropWhile p ++ k := by
  rw [List.dropWhile_append]
  split
  · next h => rw [List.isEmpty_iff.1 h, dropWhile_endsToken hp hk, List.nil_append]
  · rfl

theorem not_isDecimalDigit_of_isEnd {c : Char} (h : isEnd c = true) : isDecimalDigit c = false :=
  forall_isEnd (by decide +kernel) h

theorem not_isWordChar_of_isEnd {c : Char} (h : isEnd c = true) : isWordChar c = false :=
  forall_isEnd (by decide +kernel) h

theorem not_isNameChar_of_isEnd {c : Char} (h : isEnd c = true) : isNameChar c = false :=
  forall_isEnd (by decide +kernel) h

theorem not_isNameStart_of_isEnd {c : Char} (h : isEnd c = true) : isNameStart c = false :=
  forall_isEnd (by decide +kernel) h

theorem startsWithDigit_append (s : List Char) (hk : EndsToken k) :
    startsWithDigit (s ++ k) = startsWithDigit s := by
  cases s with
  | cons c s => rfl
  | nil =>
    cases k with
    | nil => rfl
    | cons c k => exact not_isDecimalDigit_of_isEnd hk

theorem atWordEnd_append (s : List Char) (hk : EndsToken k) :
    atWordEnd (s ++ k) = atWordEnd s := by
  cases s with
  | cons c s => rfl
  | nil =>
    cases k with
    | nil => rfl
    | cons c k => simp [atWordEnd, not_isWordChar_of_isEnd hk]

theorem dropDigits_append_end (s : List Char) (hk : EndsToken k) :
    dropDigits (s ++ k) = dropDigits s ++ k :=
  dropWhile_append_end not_isDecimalDigit_of_isEnd s hk

/-- No beginning without such characters reaches beyond the end of a token. -/
theorem isPrefixOf_append_end {w : List Char} (hw : ∀ c ∈ w, isEnd c = false) (s : List Char)
    (hk : EndsToken k) : w.isPrefixOf (s ++ k) = w.isPrefixOf s := by
  induction w generalizing s with
  | nil => rfl
  | cons c w ih =>
    have hc := hw c List.mem_cons_self
    have ih := ih fun d hd => hw d (List.mem_cons_of_mem _ hd)
    cases s with
    | cons d s => simp [List.isPrefixOf, ih]
    | nil =>
      cases k with
      | nil => rfl
      | cons d k =>
        have hne : c ≠ d := by
          rintro rfl
          rw [show isEnd c = true from hk] at hc
          cases hc
        simp [List.isPrefixOf, hne]

end Runs

/-! ## Words and operators -/

theorem acceptWord_append {w : List Char} (hw : ∀ c ∈ w, isEnd c = false) (s : List Char)
    (hk : EndsToken k) : acceptWord w (s ++ k) = (acceptWord w s).map (· ++ k) := by
  unfold acceptWord
  rw [isPrefixOf_append_end hw s hk]
  cases hp : w.isPrefixOf s with
  | false => rfl
  | true =>
    obtain ⟨t, rfl⟩ := List.isPrefixOf_iff_prefix.1 hp
    rw [List.append_assoc, List.drop_left, List.drop_left, atWordEnd_append t hk]
    cases atWordEnd t <;> rfl

theorem acceptAny_append {ws : List (List Char)} (hws : ∀ w ∈ ws, ∀ c ∈ w, isEnd c = false)
    (s : List Char) (hk : EndsToken k) : acceptAny ws (s ++ k) = (acceptAny ws s).map (· ++ k) := by
  unfold acceptAny
  induction ws with
  | nil => rfl
  | cons w ws ih =>
    have ih := ih fun v hv => hws v (List.mem_cons_of_mem _ hv)
    rw [List.find?_cons, List.find?_cons, isPrefixOf_append_end (hws w List.mem_cons_self) s hk]
    cases hp : w.isPrefixOf s with
    | false => exact ih
    | true =>
      obtain ⟨t, rfl⟩ := List.isPrefixOf_iff_prefix.1 hp
      simp

/-- A text that does not begin with a character does not do so with the end of a token after it. -/
theorem append_ne_cons {c : Char} (hc : isEnd c = false) (hk : EndsToken k)
    (h : ∀ r, s ≠ c :: r) (r : List Char) : s ++ k ≠ c :: r := by
  cases s with
  | nil =>
    rintro rfl
    rw [show isEnd c = true from hk] at hc
    cases hc
  | cons d s =>
    intro e
    rw [List.cons_append, List.cons.injEq] at e
    exact h s (by rw [e.1])

theorem acceptAssignment_append (s : List Char) (hk : EndsToken k) :
    acceptAssignment (s ++ k) = (acceptAssignment s).map (· ++ k) := by
  fun_cases acceptAssignment s with
  | case1 s => rfl
  | case2 s => rfl
  | case3 s hequals hcolon =>
    have hequals := append_ne_cons (by decide) hk hequals
    have hcolon := append_ne_cons (by decide) hk hcolon
    rw [List.cons_append, acceptAssignment]
    · rfl
    · exact hequals
    · exact hcolon
  | case4 s _ _ h =>
    have h := append_ne_cons (by decide) hk h
    unfold acceptAssignment
    split
    · next e => exact absurd e (h _)
    · next e => exact absurd e (h _)
    · next e => exact absurd e (h _)
    · rfl

theorem acceptMultiplication_append (s : List Char) (hk : EndsToken k) :
    acceptMultiplication (s ++ k) = (acceptMultiplication s).map (· ++ k) := by
  fun_cases acceptMultiplication s with
  | case1 s => rfl
  | case2 s hstar =>
    have hstar := append_ne_cons (by decide) hk hstar
    rw [List.cons_append, acceptMultiplication]
    · rfl
    · exact hstar
  | case3 s => rfl
  | case4 s _ hstar hslash =>
    have hstar := append_ne_cons (by decide) hk hstar
    have hslash := append_ne_cons (by decide) hk hslash
    unfold acceptMultiplication
    split
    · rfl
    · next e => exact absurd e (hstar _)
    · next e => exact absurd e (hslash _)
    · rfl

theorem acceptDot_append (s : List Char) (hk : EndsToken k) :
    acceptDot (s ++ k) = (acceptDot s).map (· ++ k) := by
  fun_cases acceptDot s with
  | case1 s hd =>
    rw [List.cons_append, acceptDot, startsWithDigit_append s hk, if_pos hd]
    rfl
  | case2 s hd =>
    rw [List.cons_append, acceptDot, startsWithDigit_append s hk, if_neg hd]
    rfl
  | case3 s h =>
    have h := append_ne_cons (by decide) hk h
    unfold acceptDot
    split
    · next e => exact absurd e (h _)
    · rfl

/-! ## Numbers and names -/

theorem acceptInteger_append_end (s : List Char) (hk : EndsToken k) :
    acceptInteger (s ++ k) = (acceptInteger s).map (· ++ k) := by
  unfold acceptInteger
  rw [startsWithDigit_append s hk, dropDigits_append_end s hk]
  cases startsWithDigit s <;> rfl

theorem dropSign_append_end (s : List Char) (hk : EndsToken k) :
    dropSign (s ++ k) = dropSign s ++ k := by
  fun_cases dropSign s with
  | case1 s => rfl
  | case2 s => rfl
  | case3 s hplus hminus =>
    have hplus := append_ne_cons (by decide) hk hplus
    have hminus := append_ne_cons (by decide) hk hminus
    unfold dropSign
    split
    · next e => exact absurd e (hplus _)
    · next e => exact absurd e (hminus _)
    · rfl

theorem acceptExponent_append_end (s : List Char) (hk : EndsToken k) :
    acceptExponent (s ++ k) = (acceptExponent s).map (· ++ k) := by
  cases s with
  | nil =>
    cases k with
    | nil => rfl
    | cons c k =>
      have hmark : (c == 'e' || c == 'E' || c == 'b' || c == 'B') = false :=
        forall_isEnd (p := fun c => c == 'e' || c == 'E' || c == 'b' || c == 'B') (by decide) hk
      rw [List.nil_append, acceptExponent, acceptExponent, hmark]
      rfl
  | cons c s =>
    rw [List.cons_append, acceptExponent, acceptExponent, dropSign_append_end s hk,
      acceptInteger_append_end _ hk]
    split <;> rfl

theorem dropExponent_append_end (s : List Char) (hk : EndsToken k) :
    dropExponent (s ++ k) = dropExponent s ++ k := by
  unfold dropExponent
  rw [acceptExponent_append_end s hk]
  cases acceptExponent s <;> rfl

theorem acceptFloat_append_end (s : List Char) (hk : EndsToken k) :
    acceptFloat (s ++ k) = (acceptFloat s).map (· ++ k) := by
  cases s with
  | nil =>
    cases k with
    | nil => rfl
    | cons c k =>
      have hpoint : (c == '.') = false := forall_isEnd (p := (· == '.')) (by decide) hk
      rw [List.nil_append, acceptFloat, acceptFloat, not_isDecimalDigit_of_isEnd hk, hpoint]
      rfl
  | cons c s =>
    rw [List.cons_append, acceptFloat, acceptFloat, dropDigits_append_end s hk,
      acceptInteger_append_end s hk]
    by_cases hc : isDecimalDigit c = true
    · rw [if_pos hc, if_pos hc]
      by_cases hpoint : ∃ r, dropDigits s = '.' :: r
      · obtain ⟨r, hr⟩ := hpoint
        rw [hr]
        simp only [List.cons_append, Option.map_some, dropDigits_append_end r hk,
          dropExponent_append_end _ hk]
      · have hpoint : ∀ r, dropDigits s ≠ '.' :: r := fun r hr => hpoint ⟨r, hr⟩
        have happend := append_ne_cons (by decide) hk hpoint
        split
        · next e => exact absurd e (happend _)
        · exact acceptExponent_append_end _ hk
    · rw [if_neg hc, if_neg hc]
      split
      · cases acceptInteger s with
        | none => rfl
        | some r => exact congrArg some (dropExponent_append_end r hk)
      · rfl

theorem acceptIdentifier_append_end (s : List Char) (hk : EndsToken k) :
    acceptIdentifier (s ++ k) = (acceptIdentifier s).map (· ++ k) := by
  cases s with
  | nil =>
    cases k with
    | nil => rfl
    | cons c k =>
      rw [List.nil_append, acceptIdentifier, acceptIdentifier, not_isNameStart_of_isEnd hk]
      rfl
  | cons c s =>
    rw [List.cons_append, acceptIdentifier, acceptIdentifier,
      dropWhile_append_end not_isNameChar_of_isEnd s hk]
    split <;> rfl

/-! ## Patterns -/

/-- What ends a token changes nothing for the tokens before it. Blanks go on in it, and a string may
be closed in it. -/
theorem Pattern.accept_append {p : Pattern} (hb : p ≠ .blanks) (hs : p ≠ .string) (s : List Char)
    (hk : EndsToken k) : p.accept (s ++ k) = (p.accept s).map (· ++ k) := by
  cases p with
  | blanks => exact absurd rfl hb
  | string => exact absurd rfl hs
  | assignment => exact acceptAssignment_append s hk
  | orWord => exact acceptWord_append (by decide) s hk
  | andWord => exact acceptWord_append (by decide) s hk
  | notWord => exact acceptWord_append (by decide) s hk
  | relation => exact acceptAny_append (by decide) s hk
  | addition => exact acceptAny_append (by decide) s hk
  | multiplication => exact acceptMultiplication_append s hk
  | dot => exact acceptDot_append s hk
  | power => exact acceptAny_append (by decide) s hk
  | sign => exact acceptAny_append (by decide) s hk
  | float => exact acceptFloat_append_end s hk
  | integer => exact acceptInteger_append_end s hk
  | boolean =>
    have htrue := acceptWord_append (w := ['t', 'r', 'u', 'e']) (by decide) s hk
    have hfalse := acceptWord_append (w := ['f', 'a', 'l', 's', 'e']) (by decide) s hk
    rw [Pattern.accept, Pattern.accept, htrue, hfalse, Option.map_or]
  | identifier => exact acceptIdentifier_append_end s hk
  | ifWord => exact acceptWord_append (by decide) s hk
  | thenWord => exact acceptWord_append (by decide) s hk
  | elseifWord => exact acceptWord_append (by decide) s hk
  | elseWord => exact acceptWord_append (by decide) s hk

/-- A string that is read is closed, whatever comes later. -/
theorem acceptString_append {s' : List Char} (h : acceptString s = some s') (k : List Char) :
    acceptString (s ++ k) = some (s' ++ k) := by
  have tail {s s' : List Char} (h : acceptStringTail s = some s') :
      acceptStringTail (s ++ k) = some (s' ++ k) := by
    fun_induction acceptStringTail s with
    | case1 => cases h
    | case2 s => cases h; rfl
    | case3 => cases h
    | case4 c s hc ih => rw [List.cons_append, List.cons_append, acceptStringTail, if_neg hc, ih h]
    | case5 => cases h
    | case6 c s hquote _ hslash ih =>
      rw [List.cons_append, acceptStringTail]
      · rw [if_neg hslash, ih h]
      · exact hquote
      · exact fun _ _ e => absurd (beq_iff_eq.2 e) hslash
  unfold acceptString at h
  split at h
  · exact tail h
  · cases h

end AlgebraBatch.Syntax
