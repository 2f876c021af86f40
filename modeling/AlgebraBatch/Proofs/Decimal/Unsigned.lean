import AlgebraBatch.Decimal.Numeral
import AlgebraBatch.Proofs.Text.CharClass
import AlgebraBatch.Proofs.Text.Search

/-!
# Numerals without a sign

Whatever is rounded to a double is a number. A numeral that begins with a digit or with a point is
not read as a negative one.
-/

namespace AlgebraBatch

open AlgebraBatch.Text

namespace Binary64

theorem pack_ne_nan (n : Bool) (m : Nat) (q : Int) : pack n m q ≠ .nan := by
  unfold pack
  simp only
  split
  · split <;> intro h <;> cases h
  · split <;> intro h <;> cases h

theorem ofRatio_ne_nan (n : Bool) (num den : Nat) : ofRatio n num den ≠ .nan := by
  unfold ofRatio
  split
  · intro h; cases h
  · exact pack_ne_nan _ _ _

theorem ofDecimal_ne_nan (n : Bool) (digits : Nat) (e : Int) : ofDecimal n digits e ≠ .nan := by
  unfold ofDecimal
  split
  · intro h; cases h
  · split
    · intro h; cases h
    · split
      · intro h; cases h
      · split
        · exact ofRatio_ne_nan _ _ _
        · exact ofRatio_ne_nan _ _ _

theorem isNegative_pack (m : Nat) (q : Int) : (pack false m q).isNegative = false := by
  unfold pack
  simp only
  split
  · split <;> rfl
  · split <;> rfl

theorem isNegative_ofRatio (num den : Nat) : (ofRatio false num den).isNegative = false := by
  unfold ofRatio
  split
  · rfl
  · exact isNegative_pack _ _

theorem isNegative_ofDecimal (digits : Nat) (e : Int) :
    (ofDecimal false digits e).isNegative = false := by
  unfold ofDecimal
  split
  · rfl
  · split
    · rfl
    · split
      · rfl
      · split
        · exact isNegative_ofRatio _ _
        · exact isNegative_ofRatio _ _

end Binary64

namespace Numeral

/-- What an ASCII numeral without a sign begins with. -/
def beginsUnsigned (c : Char) : Bool := c.isDigit || c == '.'

theorem beginsUnsigned_apart {c : Char} (h : beginsUnsigned c = true) :
    c ≠ '-' ∧ c ≠ '+' ∧ c ≠ '_' ∧ isAsciiBlank c = false := by
  rcases (Bool.or_eq_true _ _).mp h with h | h
  · have hc := isDigit_iff.1 h
    refine ⟨?_, ?_, ?_, ?_⟩
    · rintro rfl; revert h; decide
    · rintro rfl; revert h; decide
    · rintro rfl; revert h; decide
    · have hs : c ≠ ' ' := by rintro rfl; revert h; decide
      rw [isAsciiBlank, beq_false_of_ne hs]
      simp only [Bool.false_or, Bool.and_eq_false_iff, decide_eq_false_iff_not]
      omega
  · rw [eq_of_beq h]; decide

theorem isBlank_eq_false_of_isDecimalDigit {c : Char} (h : isDecimalDigit c = true)
    (hc : ¬ c.toNat < 127) : isBlank c = false := by
  have hp := not_isPatternBlank_of_isDecimalDigit h
  rw [isPatternBlank, Bool.or_eq_false_iff, Bool.or_eq_false_iff] at hp
  rw [isBlank, hp.1.1, hp.2]
  simp only [Bool.false_or, Bool.or_false, Bool.and_eq_false_iff, decide_eq_false_iff_not]
  omega

theorem isDigit_digitChar {d : Nat} (h : d < 10) : (digitChar d).isDigit = true := by
  have all : ∀ d < 10, (digitChar d).isDigit = true := by decide
  exact all d h

theorem digitValue?_lt {c : Char} {d : Nat} (h : digitValue? c = some d) : d < 10 := by
  unfold digitValue? at h
  split at h
  · split at h
    · next hd => cases h; have := isDigit_iff.1 hd; omega
    · cases h
  · obtain ⟨z, -, hz⟩ := List.exists_of_findSome?_eq_some h
    split at hz
    · next hzc =>
      cases hz
      simp only [Bool.and_eq_true, decide_eq_true_eq] at hzc
      omega
    · cases hz

theorem asciiForm_cons {c : Char} (cs : List Char) (h : isDecimalDigit c = true ∨ c = '.') :
    ∃ d ds, asciiForm (c :: cs) = d :: ds ∧ beginsUnsigned d = true := by
  have ascii (hc : c.toNat < 128) : beginsUnsigned c = true := by
    rcases h with h | rfl
    · rw [isDecimalDigit_ascii hc] at h
      rw [beginsUnsigned, h, Bool.true_or]
    · rfl
  unfold asciiForm
  split
  · next hall =>
    have hc := List.all_eq_true.1 hall c List.mem_cons_self
    exact ⟨c, cs, rfl, ascii (by simpa using hc)⟩
  · rw [transcribe]
    split
    · next hc => exact ⟨c, _, rfl, ascii (by omega)⟩
    · next hc =>
      have hd : isDecimalDigit c = true := h.resolve_right (by rintro rfl; exact hc (by decide))
      rw [isBlank_eq_false_of_isDecimalDigit hd hc, if_neg Bool.false_ne_true]
      obtain ⟨d, hv⟩ := Option.isSome_iff_exists.1 hd
      rw [hv]
      refine ⟨digitChar d, _, rfl, ?_⟩
      rw [beginsUnsigned, isDigit_digitChar (digitValue?_lt hv), Bool.true_or]

theorem ungroup?_cons {c : Char} {cs ds : List Char} {afterDigit : Bool} (hc : c ≠ '_')
    (h : ungroup? afterDigit (c :: cs) = some ds) : ∃ ds', ds = c :: ds' := by
  rw [ungroup?] at h
  · rw [beq_false_of_ne hc, if_neg Bool.false_ne_true] at h
    obtain ⟨ds', -, rfl⟩ := Option.map_eq_some_iff.1 h
    exact ⟨ds', rfl⟩
  · exact fun _ _ e => absurd e hc

theorem takeSign_unsigned {c : Char} (hc : beginsUnsigned c = true) (cs : List Char) :
    takeSign (c :: cs) = (false, c :: cs) := by
  obtain ⟨hm, hp, -⟩ := beginsUnsigned_apart hc
  unfold takeSign
  split
  · next e => cases e; exact absurd rfl hm
  · next e => cases e; exact absurd rfl hp
  · rfl

theorem isNegative_readDecimal? {c : Char} {cs : List Char} {x : Binary64}
    (hc : beginsUnsigned c = true) (h : readDecimal? (c :: cs) = some x) :
    x.isNegative = false := by
  rw [readDecimal?, takeSign_unsigned hc] at h
  simp only at h
  split at h
  · cases h; rfl
  · cases h; rfl
  · cases h; rfl
  · split at h
    · cases h
    · obtain ⟨e, -, rfl⟩ := Option.map_eq_some_iff.1 h
      exact Binary64.isNegative_ofDecimal _ _

/-- A numeral without a sign is not read as a negative number. -/
theorem isNegative_readFloat {text : String} {c : Char} {cs : List Char} {x : Binary64}
    (ht : text.toList = c :: cs) (hc : isDecimalDigit c = true ∨ c = '.')
    (h : readFloat text = .ok x) : x.isNegative = false := by
  obtain ⟨d, ds, hd, hu⟩ := asciiForm_cons cs hc
  obtain ⟨-, -, hne, hb⟩ := beginsUnsigned_apart hu
  rw [readFloat, ht, hd, List.dropWhile_cons_of_neg (ne_true_of_eq_false hb),
    dropRightWhile_cons hb] at h
  split at h
  · next y hy =>
    cases h
    obtain ⟨cs', hg, hr⟩ := Option.bind_eq_some_iff.1 hy
    obtain ⟨cs'', rfl⟩ := ungroup?_cons hne hg
    exact isNegative_readDecimal? hu hr
  · cases h

end Numeral

end AlgebraBatch
