import AlgebraBatch.Proofs.Syntax.Layout

/-!
# Atoms of an accepted text

Every atom of a tree that is read from a text is a lexeme of its kind: the text that it stands for is
read whole by the pattern of the kind, wherever in the tree the atom is. The tree is laid out in the
text, so the pattern has read the atom where it stands; and it reads the same where nothing follows.
-/

namespace AlgebraBatch.Syntax

open AlgebraBatch.Text Peg AlgebraBatch.Syntax.Tree

variable {s s' : List Char} {t : Tree}

/-! ## Tokens -/

theorem acceptStringTail_lexeme (h : acceptStringTail s = some s') :
    ∃ u, s = u ++ s' ∧ acceptStringTail u = some [] := by
  fun_induction acceptStringTail s with
  | case1 => cases h
  | case2 s => cases h; exact ⟨['"'], rfl, rfl⟩
  | case3 => cases h
  | case4 c s hc ih =>
    obtain ⟨u, rfl, hu⟩ := ih h
    exact ⟨'\\' :: c :: u, rfl, by rw [acceptStringTail, if_neg hc, hu]⟩
  | case5 => cases h
  | case6 c s hquote _ hslash ih =>
    obtain ⟨u, rfl, hu⟩ := ih h
    refine ⟨c :: u, rfl, ?_⟩
    rw [acceptStringTail]
    · rw [if_neg hslash, hu]
    · exact hquote
    · exact fun _ _ e => absurd (beq_iff_eq.2 e) hslash

theorem acceptString_lexeme (h : acceptString s = some s') :
    ∃ u, s = u ++ s' ∧ acceptString u = some [] := by
  unfold acceptString at h
  split at h
  · obtain ⟨u, rfl, hu⟩ := acceptStringTail_lexeme h
    exact ⟨'"' :: u, rfl, hu⟩
  · cases h

/-- What the pattern of an atom reads, it reads also where nothing follows. -/
theorem atom_lexeme {k : AtomKind} (h : k.pattern.accept s = some s') :
    ∃ u, s = u ++ s' ∧ k.pattern.IsLexeme u := by
  cases k with
  | integer =>
    obtain ⟨u, hs, hne, hu⟩ := integer_lexeme h
    have hl := acceptInteger_digits hne hu (r := []) trivial
    rw [List.append_nil] at hl
    exact ⟨u, hs, hl⟩
  | float => exact Numeral.float_lexeme h
  | string => exact acceptString_lexeme h
  | boolean =>
    rcases Option.or_eq_some_iff.1 h with h | ⟨-, h⟩
    · exact ⟨_, (acceptWord_eq_some.1 h).1, by decide⟩
    · exact ⟨_, (acceptWord_eq_some.1 h).1, by decide⟩
  | identifier =>
    obtain ⟨u, hs, hl, -⟩ := identifier_lexeme h
    exact ⟨u, hs, hl⟩

/-! ## Trees -/

/-- An atom is a lexeme of its kind. -/
def Tree.IsLexeme : Tree → Prop
  | .atom k p => k.pattern.IsLexeme p.text.toList
  | _ => True

/-- Every atom in the tree is a lexeme of its kind. -/
def Tree.Lexical (t : Tree) : Prop := ∀ d ∈ t.nodes, d.IsLexeme

theorem isLexeme_atom {k : AtomKind} (h : k.pattern.accept s = some s') :
    (Tree.atom k (.between s s')).IsLexeme := by
  obtain ⟨u, rfl, hu⟩ := atom_lexeme h
  rw [Tree.IsLexeme, text_between_append, String.toList_ofList]
  exact hu

/-- Every atom of the tree of a text is a lexeme of its kind. -/
theorem lexical_of_parseTree (h : parseTree s = .ok t) : t.Lexical := by
  intro d hd
  obtain ⟨-, -, -, -, hp, hread, -⟩ := (laid_of_parseTree h).lies d hd
  cases d with
  | atom k p =>
    obtain rfl : p = _ := hp
    exact isLexeme_atom hread
  | _ => trivial

end AlgebraBatch.Syntax
