import AlgebraBatch.Syntax.Terminal

/-!
# What terminals read

Every terminal reads a beginning of the text (`accept_suffix`), and every one but the blanks reads
at least a character (`accept_shorter`).
-/

namespace AlgebraBatch.Syntax

open AlgebraBatch.Text

theorem suffix_cons {c : Char} {s s' : List Char} (h : s' <:+ s) : s' <:+ c :: s :=
  h.trans (List.suffix_cons c s)

/-- What is left after a character is a shorter end of the text. -/
theorem shorter_cons {c : Char} {s s' : List Char} (h : s' <:+ s) :
    s' <:+ c :: s ∧ s'.length < (c :: s).length :=
  ⟨suffix_cons h, Nat.lt_succ_of_le h.length_le⟩

theorem shorter_append {w : List Char} (hw : w ≠ []) (s : List Char) :
    s <:+ w ++ s ∧ s.length < (w ++ s).length := by
  have := List.length_pos_iff.2 hw
  refine ⟨List.suffix_append w s, ?_⟩
  rw [List.length_append]
  omega

theorem acceptWord_eq_some {w s s' : List Char} :
    acceptWord w s = some s' ↔ s = w ++ s' ∧ atWordEnd s' = true := by
  unfold acceptWord
  constructor
  · intro h
    split at h
    · next hw =>
      rw [Bool.and_eq_true, List.isPrefixOf_iff_prefix] at hw
      obtain ⟨⟨t, rfl⟩, he⟩ := hw
      rw [List.drop_left] at h he
      cases h
      exact ⟨rfl, he⟩
    · cases h
  · rintro ⟨rfl, he⟩
    rw [List.drop_left, he, Bool.and_true, if_pos (by simp)]

theorem acceptAny_eq_some {ws : List (List Char)} {s s' : List Char} (h : acceptAny ws s = some s') :
    ∃ w ∈ ws, s = w ++ s' := by
  unfold acceptAny at h
  obtain ⟨w, hw, rfl⟩ := Option.map_eq_some_iff.1 h
  have hp : w.isPrefixOf s = true := by simpa using List.find?_some hw
  obtain ⟨t, rfl⟩ := List.isPrefixOf_iff_prefix.1 hp
  exact ⟨w, List.mem_of_find?_eq_some hw, by rw [List.drop_left]⟩

section

variable {s s' : List Char}

theorem acceptWord_suffix {w : List Char} (hw : w ≠ []) (h : acceptWord w s = some s') :
    s' <:+ s ∧ s'.length < s.length := by
  obtain ⟨rfl, -⟩ := acceptWord_eq_some.1 h
  exact shorter_append hw s'

theorem acceptAny_suffix {ws : List (List Char)} (hws : ∀ w ∈ ws, w ≠ [])
    (h : acceptAny ws s = some s') : s' <:+ s ∧ s'.length < s.length := by
  obtain ⟨w, hw, rfl⟩ := acceptAny_eq_some h
  exact shorter_append (hws w hw) s'

theorem acceptAssignment_suffix (h : acceptAssignment s = some s') :
    s' <:+ s ∧ s'.length < s.length := by
  unfold acceptAssignment at h
  split at h
  · cases h; exact shorter_cons (List.suffix_cons ..)
  · cases h
  · cases h; exact shorter_cons List.suffix_rfl
  · cases h

theorem acceptMultiplication_suffix (h : acceptMultiplication s = some s') :
    s' <:+ s ∧ s'.length < s.length := by
  unfold acceptMultiplication at h
  split at h
  · cases h
  · cases h; exact shorter_cons List.suffix_rfl
  · cases h; exact shorter_cons List.suffix_rfl
  · cases h

theorem acceptDot_suffix (h : acceptDot s = some s') : s' <:+ s ∧ s'.length < s.length := by
  unfold acceptDot at h
  split at h
  · split at h
    · cases h
    · cases h; exact shorter_cons List.suffix_rfl
  · cases h

theorem acceptInteger_suffix (h : acceptInteger s = some s') :
    s' <:+ s ∧ s'.length < s.length := by
  unfold acceptInteger at h
  split at h
  · next hd =>
    cases h
    cases s with
    | nil => cases hd
    | cons c s =>
      have hc : isDecimalDigit c = true := hd
      rw [dropDigits, List.dropWhile_cons_of_pos hc]
      exact shorter_cons (List.dropWhile_suffix isDecimalDigit)
  · cases h

theorem dropSign_suffix (s : List Char) : dropSign s <:+ s := by
  unfold dropSign
  split
  · exact List.suffix_cons ..
  · exact List.suffix_cons ..
  · exact List.suffix_rfl

theorem acceptExponent_suffix (h : acceptExponent s = some s') : s' <:+ s := by
  cases s with
  | nil => cases h
  | cons c s =>
    rw [acceptExponent] at h
    split at h
    · exact suffix_cons ((acceptInteger_suffix h).1.trans (dropSign_suffix s))
    · cases h

theorem dropExponent_suffix (s : List Char) : dropExponent s <:+ s := by
  unfold dropExponent
  cases h : acceptExponent s with
  | none => exact List.suffix_rfl
  | some s' => exact acceptExponent_suffix h

theorem acceptFloat_suffix (h : acceptFloat s = some s') :
    s' <:+ s ∧ s'.length < s.length := by
  cases s with
  | nil => cases h
  | cons c s =>
    have hs : s' <:+ s := by
      rw [acceptFloat] at h
      split at h
      · have hd : s.dropWhile isDecimalDigit <:+ s := List.dropWhile_suffix isDecimalDigit
        split at h
        · next s₁ e =>
          cases h
          rw [dropDigits] at e
          rw [e] at hd
          exact (dropExponent_suffix _).trans
            ((List.dropWhile_suffix _).trans ((List.suffix_cons _ _).trans hd))
        · exact (acceptExponent_suffix h).trans hd
      · split at h
        · obtain ⟨s₁, h₁, rfl⟩ := Option.map_eq_some_iff.1 h
          exact (dropExponent_suffix _).trans (acceptInteger_suffix h₁).1
        · cases h
    exact shorter_cons hs

theorem acceptStringTail_suffix (h : acceptStringTail s = some s') : s' <:+ s := by
  fun_induction acceptStringTail s with
  | case1 => cases h
  | case2 s => cases h; exact List.suffix_cons ..
  | case3 => cases h
  | case4 c s hc ih => exact suffix_cons (suffix_cons (ih h))
  | case5 => cases h
  | case6 c s hc _ _ ih => exact suffix_cons (ih h)

theorem acceptString_suffix (h : acceptString s = some s') : s' <:+ s ∧ s'.length < s.length := by
  unfold acceptString at h
  split at h
  · exact shorter_cons (acceptStringTail_suffix h)
  · cases h

theorem acceptIdentifier_suffix (h : acceptIdentifier s = some s') :
    s' <:+ s ∧ s'.length < s.length := by
  unfold acceptIdentifier at h
  split at h
  · cases h
  · split at h
    · cases h; exact shorter_cons (List.dropWhile_suffix _)
    · cases h

/-- A pattern reads a beginning of the text, which is empty for blanks only. -/
theorem Pattern.accept_suffix {p : Pattern} (h : p.accept s = some s') :
    s' <:+ s ∧ (p ≠ .blanks → s'.length < s.length) := by
  suffices hs : p ≠ .blanks → s' <:+ s ∧ s'.length < s.length by
    by_cases hp : p = .blanks
    · subst hp
      cases h
      exact ⟨List.dropWhile_suffix _, fun e => absurd rfl e⟩
    · exact ⟨(hs hp).1, fun e => (hs e).2⟩
  intro hp
  cases p with
  | blanks => exact absurd rfl hp
  | assignment => exact acceptAssignment_suffix h
  | orWord => exact acceptWord_suffix (by decide) h
  | andWord => exact acceptWord_suffix (by decide) h
  | notWord => exact acceptWord_suffix (by decide) h
  | relation => exact acceptAny_suffix (by decide) h
  | addition => exact acceptAny_suffix (by decide) h
  | multiplication => exact acceptMultiplication_suffix h
  | dot => exact acceptDot_suffix h
  | power => exact acceptAny_suffix (by decide) h
  | sign => exact acceptAny_suffix (by decide) h
  | float => exact acceptFloat_suffix h
  | integer => exact acceptInteger_suffix h
  | string => exact acceptString_suffix h
  | boolean =>
    rcases Option.or_eq_some_iff.1 h with h | ⟨-, h⟩
    · exact acceptWord_suffix (by decide) h
    · exact acceptWord_suffix (by decide) h
  | identifier => exact acceptIdentifier_suffix h
  | ifWord => exact acceptWord_suffix (by decide) h
  | thenWord => exact acceptWord_suffix (by decide) h
  | elseifWord => exact acceptWord_suffix (by decide) h
  | elseWord => exact acceptWord_suffix (by decide) h

end

/-- Every terminal but the blanks reads at least a character. -/
def Terminal.isSolid : Terminal → Bool
  | .literal _ => true
  | .pattern p => p != .blanks

theorem Terminal.accept_suffix {t : Terminal} {s s' : List Char} (h : t.accept s = some s') :
    s' <:+ s := by
  cases t with
  | literal c =>
    cases s with
    | nil => cases h
    | cons d s =>
      rw [accept] at h
      split at h
      · cases h; exact List.suffix_cons ..
      · cases h
  | pattern p => exact (Pattern.accept_suffix h).1

theorem Terminal.accept_shorter {t : Terminal} {s s' : List Char} (ht : t.isSolid = true)
    (h : t.accept s = some s') : s'.length < s.length := by
  cases t with
  | literal c =>
    cases s with
    | nil => cases h
    | cons d s =>
      rw [accept] at h
      split at h
      · cases h; exact Nat.lt_succ_self _
      · cases h
  | pattern p => exact (Pattern.accept_suffix h).2 (by simpa [isSolid] using ht)

end AlgebraBatch.Syntax
