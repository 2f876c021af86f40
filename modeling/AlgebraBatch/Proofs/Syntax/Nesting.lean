import AlgebraBatch.Proofs.Syntax.Ending
import AlgebraBatch.Proofs.Syntax.FloatLexeme

/-!
# Brackets that a text closes

`Shut d s`: the text closes `d` brackets that were opened before it and leaves none of its own open,
nor a string. A token that is no bracket changes nothing of this (`shut_of_accept`).
-/

namespace AlgebraBatch.Syntax

open AlgebraBatch.Text

def openings : List Char := ['(', '[', '\x7b']

def closings : List Char := [')', ']', '\x7d']

/-- The character is neither a bracket nor the quote of a string. -/
def isPlain (c : Char) : Bool := !(openings ++ closings ++ ['"']).contains c

inductive Shut : Nat → List Char → Prop where
  | nil : Shut 0 []
  | plain {d : Nat} {c : Char} {s : List Char} : isPlain c = true → Shut d s → Shut d (c :: s)
  | opening {d : Nat} {c : Char} {s : List Char} : c ∈ openings → Shut (d + 1) s → Shut d (c :: s)
  | closing {d : Nat} {c : Char} {s : List Char} : c ∈ closings → Shut d s → Shut (d + 1) (c :: s)
  | string {d : Nat} {s s' : List Char} : acceptString s = some s' → Shut d s' → Shut d s

variable {d : Nat} {c : Char} {s s' : List Char}

theorem head_of_acceptString (h : acceptString (c :: s) = some s') : c = '"' := by
  unfold acceptString at h
  split at h
  · next e => exact (List.cons.inj e).1
  · cases h

/-- A character is plain, opens or closes a bracket, or begins a string, but only one of these. -/
theorem class_unique : (∀ c ∈ openings, isPlain c = false ∧ c ∉ closings ∧ c ≠ '"') ∧
    (∀ c ∈ closings, isPlain c = false ∧ c ≠ '"') ∧ isPlain '"' = false := by
  decide

theorem shut_plain (hc : isPlain c = true) : Shut d (c :: s) ↔ Shut d s := by
  obtain ⟨hopening, hclosing, hquote⟩ := class_unique
  constructor
  · intro h
    cases h with
    | plain _ h => exact h
    | opening ho _ => cases hc.symm.trans (hopening c ho).1
    | closing hl _ => cases hc.symm.trans (hclosing c hl).1
    | string hs _ =>
      obtain rfl := head_of_acceptString hs
      cases hc.symm.trans hquote
  · exact .plain hc

theorem shut_opening (hc : c ∈ openings) : Shut d (c :: s) ↔ Shut (d + 1) s := by
  obtain ⟨hplain, hclosing, hquote⟩ := class_unique.1 c hc
  constructor
  · intro h
    cases h with
    | plain hp _ => cases hp.symm.trans hplain
    | opening _ h => exact h
    | closing hl _ => exact absurd hl hclosing
    | string hs _ => exact absurd (head_of_acceptString hs) hquote
  · exact .opening hc

theorem shut_closing (hc : c ∈ closings) : Shut (d + 1) (c :: s) ↔ Shut d s := by
  obtain ⟨hplain, hquote⟩ := class_unique.2.1 c hc
  constructor
  · intro h
    cases h with
    | plain hp _ => cases hp.symm.trans hplain
    | opening ho _ => exact absurd hc (class_unique.1 c ho).2.1
    | closing _ h => exact h
    | string hs _ => exact absurd (head_of_acceptString hs) hquote
  · exact .closing hc

/-- Where a string begins, it is read. -/
theorem Shut.acceptString (h : Shut d ('"' :: s)) :
    ∃ s', acceptString ('"' :: s) = some s' ∧ Shut d s' := by
  cases h with
  | plain hp _ => cases hp.symm.trans class_unique.2.2
  | opening ho _ => exact absurd rfl (class_unique.1 _ ho).2.2
  | closing hl _ => exact absurd rfl (class_unique.2.1 _ hl).2
  | string hs h => exact ⟨_, hs, h⟩

theorem shut_string (hs : acceptString s = some s') : Shut d s ↔ Shut d s' := by
  constructor
  · intro h
    cases s with
    | nil => cases hs
    | cons c s =>
      obtain rfl := head_of_acceptString hs
      obtain ⟨s₁, hs₁, h⟩ := h.acceptString
      obtain rfl := Option.some.inj (hs.symm.trans hs₁)
      exact h
  · exact .string hs

theorem shut_append {w : List Char} (hw : ∀ c ∈ w, isPlain c = true) :
    Shut d (w ++ s) ↔ Shut d s := by
  induction w with
  | nil => exact Iff.rfl
  | cons c w ih =>
    exact (shut_plain (hw c List.mem_cons_self)).trans
      (ih fun d hd => hw d (List.mem_cons_of_mem _ hd))

/-- A text that is to close a bracket is not empty. -/
theorem Shut.ne_nil (h : Shut (d + 1) s) : s ≠ [] := by
  rintro rfl
  cases h with
  | string hs _ => cases hs

/-! ## Tokens -/

theorem isPlain_of {p : Char → Bool}
    (hp : ∀ c ∈ openings ++ closings ++ ['"'], p c = false) (hc : p c = true) :
    isPlain c = true := by
  cases h : (openings ++ closings ++ ['"']).contains c with
  | false => rw [isPlain, h]; rfl
  | true => cases hc.symm.trans (hp c (List.contains_iff_mem.1 h))

/-- The characters of the tokens other than blanks and strings. -/
def isTokenChar (c : Char) : Bool :=
  isDecimalDigit c || isNameChar c ||
    [':', '=', '<', '>', '#', '+', '-', '*', '/', '.', '^', '\''].contains c

theorem tokenChars_of_accept {p : Pattern} (hb : p ≠ .blanks) (hs : p ≠ .string)
    (h : p.accept s = some s') : ∃ w, s = w ++ s' ∧ ∀ c ∈ w, isTokenChar c = true := by
  have digit {c : Char} (hc : isDecimalDigit c = true) : isTokenChar c = true := by
    rw [isTokenChar, hc]
    rfl
  by_cases hw : p.spellings = []
  · cases p with
    | blanks => exact absurd rfl hb
    | float =>
      obtain ⟨whole, fraction, exponent, hs, hd⟩ := Numeral.isDecimal_of_acceptFloat h
      have hmark : ∀ c ∈ ['.', '+', '-'] ++ ['e', 'E', 'b', 'B'], isTokenChar c = true := by decide
      refine ⟨_, hs, fun c hc => ?_⟩
      rcases hd.mem hc with hc | hc | hc
      · exact digit hc
      · exact hmark c (List.mem_append_left _ hc)
      · exact hmark c (List.mem_append_right _ hc)
    | integer =>
      obtain ⟨w, hs, -, hd⟩ := integer_lexeme h
      exact ⟨w, hs, fun c hc => digit (hd c hc)⟩
    | boolean =>
      rcases Option.or_eq_some_iff.1 h with h | ⟨-, h⟩
      · exact ⟨_, (acceptWord_eq_some.1 h).1, by decide⟩
      · exact ⟨_, (acceptWord_eq_some.1 h).1, by decide⟩
    | identifier =>
      obtain ⟨w, hs, hl, -⟩ := identifier_lexeme h
      obtain ⟨-, -, -, -, hn⟩ := identifier_cons hl
      refine ⟨w, hs, fun c hc => ?_⟩
      rw [isTokenChar, hn c hc, Bool.or_true]
      rfl
    | string => exact absurd rfl hs
    | _ => cases hw
  · obtain ⟨w, hw, hs⟩ := accept_spelling hw h
    have hmark : ∀ w ∈ p.spellings, ∀ c ∈ w.toList, isTokenChar c = true := by
      cases p <;> decide
    exact ⟨w.toList, hs, hmark w hw⟩

/-- What a token other than a string reads holds no brackets and no quotes. -/
theorem plain_of_accept {p : Pattern} (hp : p ≠ .string) (h : p.accept s = some s') :
    ∃ w, s = w ++ s' ∧ ∀ c ∈ w, isPlain c = true := by
  by_cases hb : p = .blanks
  · subst hb
    obtain rfl := Option.some.inj h
    refine ⟨s.takeWhile isPatternBlank, List.takeWhile_append_dropWhile.symm, fun c hc => ?_⟩
    exact isPlain_of (by decide) (List.mem_takeWhile_imp hc)
  · obtain ⟨w, hs, hw⟩ := tokenChars_of_accept hb hp h
    exact ⟨w, hs, fun c hc => isPlain_of (by decide) (hw c hc)⟩

theorem shut_of_accept {p : Pattern} (h : p.accept s = some s') : Shut d s ↔ Shut d s' := by
  by_cases hp : p = .string
  · subst hp
    exact shut_string h
  · obtain ⟨w, rfl, hw⟩ := plain_of_accept hp h
    exact shut_append hw

end AlgebraBatch.Syntax
