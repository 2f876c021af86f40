import AlgebraBatch.Proofs.Syntax.FloatValue
import AlgebraBatch.Proofs.Syntax.Token
import Mathlib.Data.List.Basic

/-!
# Values of number tokens

Every float token is read as its value, and an integer token as the number that its digits write,
whichever scripts they are of, unless there are more than `maxDigits` of them.
-/

namespace AlgebraBatch

open AlgebraBatch.Text AlgebraBatch.Syntax

namespace Numeral

theorem digitChar_toNat {d : Nat} (h : d < 10) : (digitChar d).toNat = 48 + d := by
  have all : ∀ d < 10, (digitChar d).toNat = 48 + d := by decide
  exact all d h

/-- The ASCII form of a digit is the same digit. -/
theorem digitValue?_asciiChar {c : Char} (h : isDecimalDigit c = true) :
    digitValue? (asciiChar c) = digitValue? c := by
  unfold asciiChar
  split
  · rfl
  · obtain ⟨d, hd⟩ := Option.isSome_iff_exists.1 h
    have hlt := digitValue?_lt hd
    rw [hd, Option.getD_some, digitValue?_of_isDigit (isDigit_digitChar hlt), digitChar_toNat hlt]
    congr 1
    omega

theorem digitsToNat_asciiForm {cs : List Char} (h : ∀ c ∈ cs, isDecimalDigit c = true) :
    digitsToNat (cs.map asciiChar) = digitsToNat cs := by
  unfold digitsToNat
  rw [List.foldl_map]
  refine List.foldl_ext _ _ 0 fun n c hc => ?_
  rw [digitValue?_asciiChar (h c hc)]

theorem isGrouped_digits {cs : List Char} (hne : cs ≠ []) (h : ∀ c ∈ cs, c.isDigit = true) :
    isGrouped cs = true := by
  induction cs with
  | nil => exact absurd rfl hne
  | cons c cs ih =>
    obtain ⟨hc, hcs⟩ := List.forall_mem_cons.1 h
    cases cs with
    | nil => exact hc
    | cons d cs =>
      have hd : d ≠ '_' := by
        rintro rfl
        exact absurd (hcs '_' List.mem_cons_self) (by decide)
      rw [isGrouped, hc, Bool.true_and, beq_false_of_ne hd, if_neg Bool.false_ne_true]
      exact ih (List.cons_ne_nil d cs) hcs

/-- Digits, and nothing else, are read as the number that they write, if they are not too many. -/
theorem readInteger_digits {text : String} (hne : text.toList ≠ [])
    (h : ∀ c ∈ text.toList, isDecimalDigit c = true) :
    readInteger text =
      if maxDigits < text.length then .error (.tooManyDigits text.length)
      else .ok (digitsToNat text.toList) := by
  have hdigits : ∀ c ∈ text.toList.map asciiChar, c.isDigit = true :=
    List.forall_mem_map.2 fun c hc => isDigit_asciiChar (h c hc)
  have hgrouped := isGrouped_digits (mt List.map_eq_nil_iff.1 hne) hdigits
  have hpart : ∀ c ∈ text.toList.map asciiChar, (c.isDigit || c == '_') = true := by
    intro c hc
    rw [hdigits c hc, Bool.true_or]
  have hform : asciiForm text.toList = text.toList.map asciiChar :=
    asciiForm_eq_map fun c hc => .inl (h c hc)
  have hsign : takeSign ((asciiForm text.toList).dropWhile isAsciiBlank) =
      (false, text.toList.map asciiChar) := by
    rw [hform]
    cases hcs : text.toList.map asciiChar with
    | nil => rfl
    | cons c cs =>
      have hu : beginsUnsigned c = true := by
        rw [beginsUnsigned, hdigits c (hcs ▸ List.mem_cons_self), Bool.true_or]
      obtain ⟨-, -, -, hb⟩ := beginsUnsigned_apart hu
      rw [List.dropWhile_cons_of_neg (ne_true_of_eq_false hb), takeSign_unsigned hu]
  have hlength : (text.toList.map asciiChar).length = text.length := List.length_map _
  unfold readInteger
  rw [hsign]
  simp only [List.takeWhile_eq_self_iff.2 hpart, List.dropWhile_eq_nil_iff.2 hpart,
    List.filter_eq_self.2 hdigits, hgrouped, hlength, digitsToNat_asciiForm h, List.all_nil,
    Bool.not_true, Bool.false_eq_true, if_false]

end Numeral

namespace Syntax

open Numeral

/-- A float token with its exponent mark replaced is read as its value. -/
theorem readFloat_lexeme {text : String} (h : Pattern.float.IsLexeme text.toList) :
    readFloat (String.ofList (text.toList.map fun c => if c == 'b' || c == 'B' then 'e' else c)) =
      .ok (floatValue text) := by
  have hne := floatValue_ne_nan h
  unfold floatValue at hne ⊢
  simp only at hne ⊢
  split at hne
  · next x hx => rw [hx]
  · exact absurd rfl hne

/-- An integer token is read as the number that its digits write, if they are not too many. -/
theorem readInteger_lexeme {text : String} (h : Pattern.integer.IsLexeme text.toList) :
    readInteger text =
      if maxDigits < text.length then .error (.tooManyDigits text.length)
      else .ok (digitsToNat text.toList) := by
  obtain ⟨u, hu, hne, hdigits⟩ := integer_lexeme h
  rw [List.append_nil] at hu
  exact readInteger_digits (hu ▸ hne) (hu ▸ hdigits)

end Syntax

end AlgebraBatch
