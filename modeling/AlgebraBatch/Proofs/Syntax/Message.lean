import AlgebraBatch.Proofs.Text.CharClass
import AlgebraBatch.Proofs.Text.Search
import AlgebraBatch.Syntax.Parser

/-!
# The place in a message

The message of a rejection names the place before it shows any of the text, so the first place that
stands in the message is this one, whatever the text looks like (`findPlace?_message`).
-/

namespace AlgebraBatch.Syntax

open AlgebraBatch.Text

/-- What stands before the number of the line. -/
def placeOpening : List Char := ['a', 't', ' ', 'L']

/-- A number is read back from its digits. -/
theorem leadingNumber?_toString (n : Nat) {rest : List Char} (h : startsWithDigit rest = false) :
    leadingNumber? ((toString n).toList ++ rest) = some (n, rest) := by
  have hlist : (toString n).toList = Nat.toDigits 10 n := Nat.toList_repr
  have hdigits : ∀ c ∈ Nat.toDigits 10 n, isDecimalDigit c = true := fun c hc =>
    isDecimalDigit_of_isDigit (Nat.isDigit_of_mem_toDigits (by decide) (by decide) hc)
  have hstart : startsWithDigit (Nat.toDigits 10 n ++ rest) = true := by
    obtain ⟨d, ds, hd⟩ := List.exists_cons_of_ne_nil (Nat.toDigits_ne_nil (b := 10) (n := n))
    rw [hd] at hdigits ⊢
    exact hdigits d List.mem_cons_self
  have htake : rest.takeWhile isDecimalDigit = [] := by
    cases rest with
    | nil => rfl
    | cons c rest => exact List.takeWhile_cons_of_neg (ne_true_of_eq_false h)
  have hdrop : rest.dropWhile isDecimalDigit = rest := by
    cases rest with
    | nil => rfl
    | cons c rest => exact List.dropWhile_cons_of_neg (ne_true_of_eq_false h)
  rw [hlist, leadingNumber?, if_pos hstart, dropDigits, List.takeWhile_append_of_pos hdigits,
    List.dropWhile_append_of_pos hdigits, htake, hdrop, List.append_nil, digitsToNat_toDigits]

theorem leadingPlace?_numbers (place : Nat × Nat) {rest : List Char}
    (h : startsWithDigit rest = false) :
    leadingPlace? (placeOpening ++ ((toString place.1).toList ++
      ':' :: 'C' :: ((toString place.2).toList ++ rest))) = some place := by
  simp only [placeOpening, List.cons_append, List.nil_append, leadingPlace?]
  rw [leadingNumber?_toString place.1 rfl]
  simp only [leadingNumber?_toString place.2 h, Option.map_some]

theorem leadingPlace?_eq_none {s : List Char} (h : ¬ placeOpening <+: s) :
    leadingPlace? s = none := by
  unfold leadingPlace?
  split
  · exact absurd ⟨_, rfl⟩ h
  · rfl

theorem unbordered_placeOpening : Unbordered placeOpening := by
  decide

/-- No place stands before the first opening. -/
theorem findPlace?_of_split {s before after : List Char}
    (h : splitAtFirst? placeOpening s = some (before, after)) :
    findPlace? s = findPlace? (placeOpening ++ after) := by
  induction s generalizing before with
  | nil => cases h
  | cons c s ih =>
    by_cases hp : placeOpening <+: c :: s
    · obtain ⟨more, hmore⟩ := hp
      rw [← hmore, placeOpening, splitAtFirst?_here] at h
      cases h
      rw [← hmore]
    · rw [splitAtFirst?_later hp] at h
      obtain ⟨⟨before, after⟩, hsplit, hcons⟩ := Option.map_eq_some_iff.1 h
      cases hcons
      rw [findPlace?, leadingPlace?_eq_none hp]
      exact ih hsplit

/-- What stands before the place. -/
def headers : List String := ["ParseError: Parse Error", "ParseError: Syntax error"]

theorem not_infix_header {header : String} (h : header ∈ headers) :
    ¬ placeOpening <:+: header.toList ++ " in input text ".toList := by
  simp only [headers, List.mem_cons, List.not_mem_nil, or_false] at h
  rcases h with rfl | rfl
  · repeat rw [String.toList_ofList]
    decide
  · repeat rw [String.toList_ofList]
    decide

theorem toList_placeText (place : Nat × Nat) : (placeText place).toList =
    " in input text ".toList ++ (placeOpening ++ ((toString place.1).toList ++
      ':' :: 'C' :: (toString place.2).toList)) := by
  have hbefore : " in input text at L".toList = " in input text ".toList ++ placeOpening := by
    repeat rw [String.toList_ofList]
    rfl
  have hbetween : ":C".toList = [':', 'C'] := by rw [String.toList_ofList]
  unfold placeText
  simp only [String.toList_append]
  rw [hbefore, hbetween, List.append_assoc, List.append_assoc, List.append_assoc]
  rfl

/-- The first place is the one after the header. -/
theorem findPlace?_header {header : String} (place : Nat × Nat) {rest : List Char}
    (hheader : header ∈ headers) (h : startsWithDigit rest = false) :
    findPlace? (header.toList ++ ((placeText place).toList ++ rest)) = some place := by
  have hplace := leadingPlace?_numbers place h
  rw [toList_placeText, List.append_assoc, List.append_assoc, List.append_assoc,
    ← List.append_assoc header.toList]
  rw [findPlace?_of_split
    (splitAtFirst?_append unbordered_placeOpening nofun (not_infix_header hheader))]
  rw [List.cons_append, List.cons_append]
  rw [placeOpening, List.cons_append] at hplace ⊢
  rw [findPlace?, hplace]
  rfl

/-- The place of a rejection is found in its message. -/
theorem findPlace?_message (text : List Char) (why : Rejection) :
    findPlace? (why.message text).toList = some (positionAt text (why.offset text)) := by
  unfold Rejection.message
  split
  · simp only [String.toList_append]
    rw [List.append_assoc, List.append_assoc]
    refine findPlace?_header _ List.mem_cons_self ?_
    rw [String.toList_ofList]
    rfl
  · simp only [String.toList_append]
    rw [List.append_assoc, List.append_assoc]
    refine findPlace?_header _ (List.mem_cons_of_mem _ List.mem_cons_self) ?_
    rw [String.toList_ofList]
    rfl

end AlgebraBatch.Syntax
