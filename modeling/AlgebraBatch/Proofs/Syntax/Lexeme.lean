import AlgebraBatch.Expr.Literal
import AlgebraBatch.Proofs.Syntax.Terminal
import AlgebraBatch.Proofs.Text.CharClass
import Mathlib.Data.List.TakeWhile

/-!
# Lexemes before a boundary

In printed text an atom is followed by the end of the text or by one of the `boundaries`: a blank, a
closing bracket, a comma or an operator that is written without blanks. None of these can belong to
the atom, so the atom's pattern reads exactly the atom. A lexeme is a text that its pattern reads
whole.
-/

namespace AlgebraBatch.Syntax

open AlgebraBatch.Text

/-- The characters that stand right after an operand in printed text. -/
def boundaries : List Char := [' ', ')', ']', '\x7d', ',', '!', ':', '+', '-', '*', '/', '^']

/-- The text is empty or begins with a boundary. -/
def IsBoundary : List Char → Prop
  | [] => True
  | c :: _ => c ∈ boundaries

/-- A pattern reads the whole text. -/
def Pattern.IsLexeme (p : Pattern) (s : List Char) : Prop := p.accept s = some []

instance (p : Pattern) (s : List Char) : Decidable (p.IsLexeme s) :=
  inferInstanceAs (Decidable (_ = _))

theorem dropWhile_boundary {p : Char → Bool} (hp : ∀ c ∈ boundaries, p c = false)
    {r : List Char} (hr : IsBoundary r) : r.dropWhile p = r := by
  cases r with
  | nil => rfl
  | cons c r => rw [List.dropWhile_cons_of_neg (ne_true_of_eq_false (hp c hr))]

/-- A run of characters does not go on beyond a boundary. -/
theorem dropWhile_append_boundary {p : Char → Bool} (hp : ∀ c ∈ boundaries, p c = false)
    (s : List Char) {r : List Char} (hr : IsBoundary r) :
    (s ++ r).dropWhile p = s.dropWhile p ++ r := by
  rw [List.dropWhile_append]
  split
  · next h => rw [List.isEmpty_iff.1 h, dropWhile_boundary hp hr, List.nil_append]
  · rfl

theorem startsWithDigit_boundary {r : List Char} (hr : IsBoundary r) :
    startsWithDigit r = false := by
  cases r with
  | nil => rfl
  | cons c r =>
    have digit : ∀ c ∈ boundaries, isDecimalDigit c = false := by decide
    exact digit c hr

theorem atWordEnd_boundary {r : List Char} (hr : IsBoundary r) : atWordEnd r = true := by
  cases r with
  | nil => rfl
  | cons c r =>
    have word : ∀ c ∈ boundaries, isWordChar c = false := by decide
    rw [atWordEnd, word c hr]
    rfl

theorem dropDigits_append (s : List Char) {r : List Char} (hr : IsBoundary r) :
    dropDigits (s ++ r) = dropDigits s ++ r :=
  dropWhile_append_boundary (by decide) s hr

/-! ## Numbers -/

theorem acceptInteger_append {s s' : List Char} {r : List Char} (hr : IsBoundary r)
    (h : acceptInteger s = some s') : acceptInteger (s ++ r) = some (s' ++ r) := by
  unfold acceptInteger at h ⊢
  split at h
  · next hd =>
    cases h
    cases s with
    | nil => cases hd
    | cons c s =>
      have hstart : startsWithDigit (c :: s ++ r) = true := hd
      rw [if_pos hstart, dropDigits_append _ hr]
  · cases h

theorem dropSign_append {s : List Char} (hs : s ≠ []) (r : List Char) :
    dropSign (s ++ r) = dropSign s ++ r := by
  cases s with
  | nil => exact absurd rfl hs
  | cons c s =>
    unfold dropSign
    split
    · next e => cases e; rfl
    · next e => cases e; rfl
    · next h₁ h₂ =>
      split
      · next e => cases e; exact absurd rfl (h₁ _)
      · next e => cases e; exact absurd rfl (h₂ _)
      · rfl

theorem acceptExponent_append {s s' : List Char} {r : List Char} (hr : IsBoundary r)
    (h : acceptExponent s = some s') : acceptExponent (s ++ r) = some (s' ++ r) := by
  cases s with
  | nil => cases h
  | cons c s =>
    rw [acceptExponent] at h
    rw [List.cons_append, acceptExponent]
    split at h
    · next hc =>
      rw [if_pos hc]
      have hs : s ≠ [] := by rintro rfl; cases h
      rw [dropSign_append hs, acceptInteger_append hr h]
    · cases h

theorem acceptExponent_boundary {r : List Char} (hr : IsBoundary r) : acceptExponent r = none := by
  cases r with
  | nil => rfl
  | cons c r =>
    have mark : ∀ c ∈ boundaries, (c == 'e' || c == 'E' || c == 'b' || c == 'B') = false := by
      decide
    rw [acceptExponent, mark c hr]
    rfl

/-- An exponent that ends a text is the exponent also before a boundary. -/
theorem dropExponent_append {s r : List Char} (hr : IsBoundary r) (h : dropExponent s = []) :
    dropExponent (s ++ r) = r := by
  unfold dropExponent at h ⊢
  cases e : acceptExponent s with
  | none =>
    rw [e] at h
    rw [show s = [] from h, List.nil_append, acceptExponent_boundary hr]
    rfl
  | some s' =>
    rw [e] at h
    rw [acceptExponent_append hr e, show s' = [] from h]
    rfl

theorem acceptFloat_append {s r : List Char} (hr : IsBoundary r) (h : Pattern.float.IsLexeme s) :
    Pattern.float.accept (s ++ r) = some r := by
  change acceptFloat s = some [] at h
  change acceptFloat (s ++ r) = some r
  cases s with
  | nil => cases h
  | cons c s =>
    rw [acceptFloat] at h
    rw [List.cons_append, acceptFloat]
    split at h
    · next hc =>
      rw [if_pos hc, dropDigits_append _ hr]
      split at h
      · next s₁ e =>
        rw [e, List.cons_append]
        simp only [dropDigits_append _ hr, dropExponent_append hr (Option.some.inj h)]
      · next s₁ hp =>
        -- The digits are followed by an exponent, which is no point.
        have he := acceptExponent_append hr h
        split
        · next s₂ e =>
          cases hd : dropDigits s with
          | nil => rw [hd] at h; cases h
          | cons d t =>
            rw [hd, List.cons_append] at e
            cases e
            exact absurd hd (hp t)
        · exact he
    · next hc =>
      rw [if_neg hc]
      split at h
      · next hp =>
        rw [if_pos hp]
        obtain ⟨s₁, h₁, h₂⟩ := Option.map_eq_some_iff.1 h
        rw [acceptInteger_append hr h₁, Option.map_some, dropExponent_append hr h₂]
      · cases h

/-- Digits before a boundary are no float. -/
theorem acceptFloat_digits {ds r : List Char} (hds : ∀ c ∈ ds, isDecimalDigit c = true)
    (hr : IsBoundary r) : Pattern.float.accept (ds ++ r) = none := by
  change acceptFloat (ds ++ r) = none
  have point : ∀ c ∈ boundaries, c ≠ '.' := by decide
  cases ds with
  | nil =>
    cases r with
    | nil => rfl
    | cons c r =>
      have digit : isDecimalDigit c = false := startsWithDigit_boundary (r := c :: r) hr
      rw [List.nil_append, acceptFloat, digit, if_neg Bool.false_ne_true,
        if_neg (by simpa using point c hr)]
  | cons d ds =>
    have hd := hds d List.mem_cons_self
    have hs : dropDigits (ds ++ r) = r := by
      rw [dropDigits, List.dropWhile_append_of_pos fun c hc => hds c (List.mem_cons_of_mem _ hc)]
      exact dropWhile_boundary (by decide) hr
    rw [List.cons_append, acceptFloat, if_pos hd, hs]
    split
    · exact absurd rfl (point _ hr)
    · exact acceptExponent_boundary hr

theorem acceptInteger_digits {ds r : List Char} (hne : ds ≠ [])
    (hds : ∀ c ∈ ds, isDecimalDigit c = true) (hr : IsBoundary r) :
    Pattern.integer.accept (ds ++ r) = some r := by
  change acceptInteger (ds ++ r) = some r
  cases ds with
  | nil => exact absurd rfl hne
  | cons d ds =>
    rw [acceptInteger, if_pos (show startsWithDigit (d :: ds ++ r) = true from
      hds d List.mem_cons_self), dropDigits, List.dropWhile_append_of_pos hds,
      dropWhile_boundary (by decide) hr]

/-! ## Strings -/

theorem acceptStringTail_escape (cs r : List Char) :
    acceptStringTail (Literal.escape cs ++ '"' :: r) = some r := by
  induction cs with
  | nil => rfl
  | cons c cs ih =>
    rw [Literal.escape]
    split
    · next h =>
      have hc : c = '\\' ∨ c = '"' := by simpa using h
      rcases hc with rfl | rfl
      · exact ih
      · exact ih
    · next h =>
      have hc : c ≠ '\\' ∧ c ≠ '"' := by simpa using h
      rw [List.cons_append, acceptStringTail]
      · rw [if_neg (by simpa using hc.1), ih]
      · exact fun e => hc.2 e
      · exact fun _ _ e => absurd e hc.1

theorem acceptString_quote (cs r : List Char) :
    Pattern.string.accept (Literal.quote cs ++ r) = some r := by
  change acceptString ('"' :: (Literal.escape cs ++ ['"']) ++ r) = some r
  rw [List.cons_append, List.append_assoc, acceptString]
  exact acceptStringTail_escape cs r

theorem unescape_escape (cs : List Char) : Literal.unescape (Literal.escape cs) = cs := by
  induction cs with
  | nil => rfl
  | cons c cs ih =>
    rw [Literal.escape]
    split
    · rw [Literal.unescape, ih]
    · next h =>
      have hc : c ≠ '\\' ∧ c ≠ '"' := by simpa using h
      rw [Literal.unescape, ih]
      exact fun _ _ e => absurd e hc.1

/-- A literal is read as the text that it was written for. -/
theorem unquote_quote (cs : List Char) : Literal.unquote (Literal.quote cs) = cs := by
  rw [Literal.unquote, Literal.quote, List.drop_one, List.tail_cons, List.dropLast_concat,
    unescape_escape]

/-! ## Names and words -/

/-- The text is empty or begins with a boundary or with the opening bracket of a call or a
subscript. -/
def EndsName (r : List Char) : Prop :=
  IsBoundary r ∨ ∃ t, r = '(' :: t ∨ r = '[' :: t

theorem dropWhile_endsName {p : Char → Bool} (hp : ∀ c ∈ '(' :: '[' :: boundaries, p c = false)
    {r : List Char} (hr : EndsName r) : r.dropWhile p = r := by
  rcases hr with hr | ⟨t, rfl | rfl⟩
  · exact dropWhile_boundary
      (fun c hc => hp c (List.mem_cons_of_mem _ (List.mem_cons_of_mem _ hc))) hr
  · exact List.dropWhile_cons_of_neg (ne_true_of_eq_false (hp _ List.mem_cons_self))
  · exact List.dropWhile_cons_of_neg
      (ne_true_of_eq_false (hp _ (List.mem_cons_of_mem _ List.mem_cons_self)))

theorem acceptIdentifier_append {s r : List Char} (hr : EndsName r)
    (h : Pattern.identifier.IsLexeme s) : Pattern.identifier.accept (s ++ r) = some r := by
  change acceptIdentifier s = some [] at h
  change acceptIdentifier (s ++ r) = some r
  cases s with
  | nil => cases h
  | cons c s =>
    rw [acceptIdentifier] at h
    rw [List.cons_append, acceptIdentifier]
    split at h
    · next hc =>
      rw [if_pos hc, List.dropWhile_append, if_pos (by rw [Option.some.inj h]; rfl),
        dropWhile_endsName (by decide) hr]
    · cases h

theorem identifier_cons {s : List Char} (h : Pattern.identifier.IsLexeme s) :
    ∃ c t, s = c :: t ∧ isNameStart c = true ∧ ∀ d ∈ s, isNameChar d = true := by
  change acceptIdentifier s = some [] at h
  cases s with
  | nil => cases h
  | cons c s =>
    rw [acceptIdentifier] at h
    split at h
    · next hc =>
      refine ⟨c, s, rfl, hc, fun d hd => ?_⟩
      rcases List.mem_cons.1 hd with rfl | hd
      · exact isNameChar_of_isNameStart hc
      · exact List.dropWhile_eq_nil_iff.1 (Option.some.inj h) d hd
    · cases h

/-- The initial run of letters, digits and underscores. -/
def firstWord (s : List Char) : List Char := s.takeWhile isAsciiWordChar

theorem takeWhile_isWordChar {s : List Char} (hs : ∀ c ∈ s, c.toNat < 0x80) :
    s.takeWhile isWordChar = firstWord s := by
  induction s with
  | nil => rfl
  | cons c s ih =>
    rw [firstWord, List.takeWhile_cons, List.takeWhile_cons,
      isWordChar_of_ascii (hs c List.mem_cons_self),
      ih fun d hd => hs d (List.mem_cons_of_mem _ hd), firstWord]

/-- A word is read only where it is the whole run of word characters. -/
theorem takeWhile_of_acceptWord {w s s' : List Char} (hw : ∀ c ∈ w, isWordChar c = true)
    (h : acceptWord w s = some s') : s.takeWhile isWordChar = w := by
  obtain ⟨rfl, he⟩ := acceptWord_eq_some.1 h
  rw [List.takeWhile_append_of_pos hw]
  cases s' with
  | nil => simp
  | cons c s' =>
    have hc : isWordChar c = false := by simpa [atWordEnd] using he
    rw [List.takeWhile_cons, hc, if_neg Bool.false_ne_true, List.append_nil]

theorem takeWhile_endsName {r : List Char} (hr : EndsName r) : r.takeWhile isWordChar = [] := by
  have h := dropWhile_endsName (p := isWordChar) (by decide) hr
  have h' := List.takeWhile_append_dropWhile (p := isWordChar) (l := r)
  rw [h] at h'
  exact List.append_left_eq_self.1 h'

theorem takeWhile_append_endsName (s : List Char) {r : List Char} (hr : EndsName r) :
    (s ++ r).takeWhile isWordChar = s.takeWhile isWordChar := by
  rw [List.takeWhile_append]
  split
  · next h =>
    rw [takeWhile_endsName hr, List.append_nil]
    exact ((List.takeWhile_prefix _).eq_of_length h).symm
  · rfl

/-- In a name only the first word can be read as a word. -/
theorem acceptWord_identifier {w s r : List Char} (hw : ∀ c ∈ w, isWordChar c = true)
    (hr : EndsName r) (h : Pattern.identifier.IsLexeme s) (hne : firstWord s ≠ w) :
    acceptWord w (s ++ r) = none := by
  cases e : acceptWord w (s ++ r) with
  | none => rfl
  | some s' =>
    have ht := takeWhile_of_acceptWord hw e
    obtain ⟨c, t, -, -, hs⟩ := identifier_cons h
    rw [takeWhile_append_endsName s hr,
      takeWhile_isWordChar fun d hd => isNameChar_toNat_lt (hs d hd)] at ht
    exact absurd ht hne

end AlgebraBatch.Syntax
