import AlgebraBatch.Syntax.Terminal

/-!
# Classes of characters

How the classes of characters that the grammar tells apart lie to each other: the characters of
names are ASCII, decimal digits of any script are no blanks, and an ASCII digit has its usual value.
-/

namespace AlgebraBatch.Text

/-- What is said of the characters of a list is decided on them and not on all characters. -/
instance (priority := high) decidableForallMem {P : Char → Prop} [DecidablePred P] (cs : List Char) :
    Decidable (∀ c ∈ cs, P c) :=
  List.decidableBAll P cs

theorem isDigit_iff {c : Char} : c.isDigit = true ↔ 48 ≤ c.toNat ∧ c.toNat ≤ 57 := by
  change (decide (48 ≤ c.toNat) && decide (c.toNat ≤ 57)) = true ↔ _
  rw [Bool.and_eq_true, decide_eq_true_eq, decide_eq_true_eq]

theorem isAlpha_iff {c : Char} :
    c.isAlpha = true ↔ 65 ≤ c.toNat ∧ c.toNat ≤ 90 ∨ 97 ≤ c.toNat ∧ c.toNat ≤ 122 := by
  have upper : c.isUpper = true ↔ 65 ≤ c.toNat ∧ c.toNat ≤ 90 := by
    change decide (65 ≤ c.toNat ∧ c.toNat ≤ 90) = true ↔ _
    rw [decide_eq_true_eq]
  have lower : c.isLower = true ↔ 97 ≤ c.toNat ∧ c.toNat ≤ 122 := by
    change (decide (97 ≤ c.toNat) && decide (c.toNat ≤ 122)) = true ↔ _
    rw [Bool.and_eq_true, decide_eq_true_eq, decide_eq_true_eq]
  change (c.isUpper || c.isLower) = true ↔ _
  rw [Bool.or_eq_true, upper, lower]

theorem isAlphanum_toNat_lt {c : Char} (h : c.isAlphanum = true) : c.toNat < 0x80 := by
  rcases (Bool.or_eq_true _ _).mp h with h | h
  · have := isAlpha_iff.1 h; omega
  · have := isDigit_iff.1 h; omega

theorem isAsciiWordChar_toNat_lt {c : Char} (h : isAsciiWordChar c = true) : c.toNat < 0x80 := by
  rcases (Bool.or_eq_true _ _).mp h with h | h
  · exact isAlphanum_toNat_lt h
  · rw [eq_of_beq h]; decide

theorem isWordChar_of_ascii {c : Char} (h : c.toNat < 0x80) :
    isWordChar c = isAsciiWordChar c := by
  rw [isWordChar, if_pos h]

/-! ## Digits -/

theorem digitValue?_of_isDigit {c : Char} (h : c.isDigit = true) :
    digitValue? c = some (c.toNat - 48) := by
  have hc := isDigit_iff.1 h
  rw [digitValue?, if_pos (by omega), if_pos h]

theorem isDecimalDigit_of_isDigit {c : Char} (h : c.isDigit = true) :
    isDecimalDigit c = true := by
  rw [isDecimalDigit, digitValue?_of_isDigit h]
  rfl

theorem isDecimalDigit_ascii {c : Char} (h : c.toNat < 0x80) : isDecimalDigit c = c.isDigit := by
  rw [isDecimalDigit, digitValue?, if_pos h]
  cases c.isDigit <;> rfl

/-- A decimal digit lies among the ten after some zero. -/
theorem exists_zero_of_isDecimalDigit {c : Char} (h : isDecimalDigit c = true) :
    ∃ z ∈ digitZeros, z ≤ c.toNat ∧ c.toNat < z + 10 := by
  by_cases hc : c.toNat < 0x80
  · rw [isDecimalDigit_ascii hc, isDigit_iff] at h
    exact ⟨0x30, by decide, by omega, by omega⟩
  · rw [isDecimalDigit, digitValue?, if_neg hc, Option.isSome_iff_exists] at h
    obtain ⟨d, hd⟩ := h
    obtain ⟨z, hz, hd⟩ := List.exists_of_findSome?_eq_some hd
    split at hd
    · next hzc => exact ⟨z, hz, by simpa using hzc⟩
    · cases hd

/-- The code points of the blanks that the grammar skips. -/
def patternBlankCodes : List Nat :=
  [9, 10, 11, 12, 13, 32, 0x85, 0xa0, 0x1680, 0x180e, 0x2000, 0x2001, 0x2002, 0x2003, 0x2004, 0x2005,
    0x2006, 0x2007, 0x2008, 0x2009, 0x200a, 0x2028, 0x2029, 0x202f, 0x205f, 0x3000]

theorem toNat_mem_of_isPatternBlank {c : Char} (h : isPatternBlank c = true) :
    c.toNat ∈ patternBlankCodes := by
  by_cases hc : c = ' '
  · subst hc; decide
  · simp only [isPatternBlank, isAsciiBlank, isWideBlank, Bool.or_eq_true, Bool.and_eq_true,
      beq_iff_eq, decide_eq_true_eq, hc, false_or] at h
    simp only [patternBlankCodes, List.mem_cons, List.not_mem_nil, or_false]
    omega

theorem not_isPatternBlank_of_isDecimalDigit {c : Char} (h : isDecimalDigit c = true) :
    isPatternBlank c = false := by
  obtain ⟨z, hz, h₁, h₂⟩ := exists_zero_of_isDecimalDigit h
  have apart : ∀ z ∈ digitZeros, ∀ b ∈ patternBlankCodes, b < z ∨ z + 10 ≤ b := by decide
  cases hb : isPatternBlank c with
  | false => rfl
  | true =>
    have := apart z hz _ (toNat_mem_of_isPatternBlank hb)
    omega

/-- The decimal digits of a number write that number. -/
theorem digitsToNat_toDigits (n : Nat) : digitsToNat (Nat.toDigits 10 n) = n := by
  have fold : ∀ (cs : List Char) (k : Nat), (∀ c ∈ cs, c.isDigit = true) →
      cs.foldl (fun n c => 10 * n + (digitValue? c).getD 0) k = Nat.ofDigitChars 10 cs k := by
    intro cs
    induction cs with
    | nil => intro k _; rfl
    | cons c cs ih =>
      intro k h
      rw [List.foldl_cons, Nat.ofDigitChars_cons, digitValue?_of_isDigit (h c List.mem_cons_self)]
      exact ih _ fun d hd => h d (List.mem_cons_of_mem _ hd)
  rw [digitsToNat, fold _ _ fun c hc => Nat.isDigit_of_mem_toDigits (by decide) (by decide) hc]
  exact Nat.ofDigitChars_toDigits (by decide) (by decide)

end AlgebraBatch.Text

namespace AlgebraBatch.Syntax

open AlgebraBatch.Text

theorem isNameChar_toNat_lt {c : Char} (h : isNameChar c = true) : c.toNat < 0x80 := by
  rcases (Bool.or_eq_true _ _).mp h with h | h
  · rw [eq_of_beq h]; decide
  · exact isAsciiWordChar_toNat_lt h

theorem isNameChar_of_isNameStart {c : Char} (h : isNameStart c = true) : isNameChar c = true := by
  simp only [isNameStart, isNameChar, isAsciiWordChar, Char.isAlphanum, Bool.or_eq_true] at h ⊢
  rcases h with (h | h) | h
  · exact .inl h
  · exact .inr (.inr h)
  · exact .inr (.inl (.inl h))

theorem isNameStart_toNat {c : Char} (h : isNameStart c = true) :
    c.toNat = 37 ∨ 65 ≤ c.toNat ∧ c.toNat ≤ 122 := by
  simp only [isNameStart, Bool.or_eq_true, beq_iff_eq, isAlpha_iff] at h
  rcases h with (rfl | rfl) | h
  · exact .inl rfl
  · exact .inr (by decide)
  · omega

/-- No name begins with a digit. -/
theorem not_isDecimalDigit_of_isNameStart {c : Char} (h : isNameStart c = true) :
    isDecimalDigit c = false := by
  have hc := isNameStart_toNat h
  rw [isDecimalDigit_ascii (by omega), Bool.eq_false_iff]
  intro hd
  have := isDigit_iff.1 hd
  omega

theorem not_isPatternBlank_of_isNameStart {c : Char} (h : isNameStart c = true) :
    isPatternBlank c = false := by
  have hc := isNameStart_toNat h
  have apart : ∀ b ∈ patternBlankCodes, b ≠ 37 ∧ (b < 65 ∨ 122 < b) := by decide
  rw [Bool.eq_false_iff]
  intro hb
  have := apart _ (toNat_mem_of_isPatternBlank hb)
  omega

end AlgebraBatch.Syntax
