import AlgebraBatch.Proofs.Syntax.Context
import AlgebraBatch.Proofs.Syntax.Lexical
import AlgebraBatch.Proofs.Text.Search

/-!
# The ends of an accepted text

An accepted text begins with an opening character and ends with the end of a token, up to the blanks
that the grammar skips. No token but a string holds a blank of any kind, a semicolon or a dollar
sign, and a string ends with its quote; so neither of these marks is at the end of an accepted text,
and no comment is at its beginning (`hasEdges_of_parseTree`). Blanks around a text are no part of any
token, so it is read without them as it is with them (`parseTree_strip`).
-/

namespace AlgebraBatch.Syntax

open AlgebraBatch.Text Peg AlgebraBatch.Expr AlgebraBatch.Syntax.Tree

variable {s s' w back : List Char} {c : Char} {d : Nat}

/-! ## Firm characters -/

/-- The character is no blank of any kind, and it is no mark that ends a statement. -/
def isFirm (c : Char) : Bool := !(isBlank c || isPatternBlank c || c == ';' || c == '$')

/-- The code points of the characters that are not firm. -/
def looseCodes : List Nat := [0x1c, 0x1d, 0x1e, 0x1f, 0x3b, 0x24] ++ patternBlankCodes

theorem toNat_mem_of_not_isFirm (h : isFirm c = false) : c.toNat ∈ looseCodes := by
  have hcase : isPatternBlank c = true ∨ 0x1c ≤ c.toNat ∧ c.toNat ≤ 0x1f ∨ c = ';' ∨ c = '$' := by
    simp only [isFirm, isBlank, isPatternBlank, Bool.not_eq_false', Bool.or_eq_true,
      Bool.and_eq_true, decide_eq_true_eq, beq_iff_eq] at h ⊢
    tauto
  rcases hcase with h | h | rfl | rfl
  · exact List.mem_append_right _ (toNat_mem_of_isPatternBlank h)
  · refine List.mem_append_left _ ?_
    simp only [List.mem_cons, List.not_mem_nil, or_false]
    omega
  all_goals decide

/-- What is said of the characters that are not firm is decided on their code points. -/
theorem isFirm_of {p : Char → Bool} (hp : ∀ n ∈ looseCodes, p (Char.ofNat n) = false)
    (hc : p c = true) : isFirm c = true := by
  by_contra hf
  have h := hp _ (toNat_mem_of_not_isFirm (Bool.eq_false_iff.2 hf))
  rw [Char.ofNat_toNat, hc] at h
  cases h

theorem isFirm_of_isTokenChar (h : isTokenChar c = true) : isFirm c = true :=
  isFirm_of (by decide +kernel) h

theorem isFirm_eq_true (h : isFirm c = true) :
    isBlank c = false ∧ isPatternBlank c = false ∧ c ≠ ';' ∧ c ≠ '$' := by
  simp only [isFirm, Bool.not_eq_true', Bool.or_eq_false_iff, beq_eq_false_iff_ne] at h
  exact ⟨h.1.1.1, h.1.1.2, h.1.2, h.2⟩

theorem IsOpening.isFirm (h : IsOpening c) : isFirm c = true := by
  rcases h with h | h | h
  · exact isFirm_of_isTokenChar (by simp [isTokenChar, isNameChar_of_isNameStart h])
  · exact isFirm_of_isTokenChar (by simp [isTokenChar, h])
  · have all : ∀ c ∈ ['.', '"', '(', '[', '\x7b', '+', '-', '\''], Syntax.isFirm c = true := by
      decide
    exact all c h

theorem IsOpening.ne_slash (h : IsOpening c) : c ≠ '/' := by
  rintro rfl
  exact absurd h (by unfold IsOpening; decide)

/-! ## Beginnings -/

theorem Opens.append (h : Opens w) (s : List Char) : Opens (w ++ s) := by
  obtain ⟨c, r, rfl, hc⟩ := h
  exact ⟨c, r ++ s, rfl, hc⟩

theorem opens_of_accept {p : Pattern}
    (hp : p ∈ [.float, .integer, .string, .boolean, .identifier, .ifWord, .notWord, .sign])
    (h : p.accept s = some s') : Opens s := by
  have name {c : Char} {w : List Char} (hc : isNameStart c = true) : Opens (c :: w) :=
    ⟨c, w, rfl, .inl hc⟩
  simp only [List.mem_cons, List.not_mem_nil, or_false] at hp
  rcases hp with rfl | rfl | rfl | rfl | rfl | rfl | rfl | rfl
  · obtain ⟨w, rfl, hl⟩ := Numeral.float_lexeme h
    obtain ⟨c, r, rfl, hc⟩ := float_cons hl
    refine .append ⟨c, r, rfl, .inr ?_⟩ s'
    exact hc.imp_right fun hc => by rw [hc]; decide
  · obtain ⟨w, rfl, hne, hd⟩ := integer_lexeme h
    obtain ⟨c, r, rfl⟩ := List.exists_cons_of_ne_nil hne
    exact .append ⟨c, r, rfl, .inr (.inl (hd c List.mem_cons_self))⟩ s'
  · cases s with
    | nil => cases h
    | cons c s =>
      obtain rfl := head_of_acceptString h
      exact ⟨'"', s, rfl, .inr (.inr (by decide))⟩
  · rcases Option.or_eq_some_iff.1 h with h | ⟨-, h⟩
    · rw [(acceptWord_eq_some.1 h).1]
      exact (name (by decide)).append s'
    · rw [(acceptWord_eq_some.1 h).1]
      exact (name (by decide)).append s'
  · obtain ⟨w, rfl, hl, -⟩ := identifier_lexeme h
    obtain ⟨c, r, rfl, hc, -⟩ := identifier_cons hl
    exact (name hc).append s'
  · rw [(acceptWord_eq_some.1 h).1]
    exact (name (by decide)).append s'
  · rw [(acceptWord_eq_some.1 h).1]
    exact (name (by decide)).append s'
  · obtain ⟨w, hw, rfl⟩ := accept_spelling (by decide) h
    have hsign : w = "''" ∨ w = "'" ∨ w = "-" ∨ w = "+" := by simpa [Pattern.spellings] using hw
    rcases hsign with rfl | rfl | rfl | rfl
    all_goals exact ⟨_, _, rfl, .inr (.inr (by decide))⟩

/-- What a rule reads begins with an opening character. -/
theorem opens_of_reads {R : Rule} {t : Tree} (h : ReadsAs R s t s') : Opens s := by
  by_contra hs
  have none {p : Pattern} (hp : p ∈ [Pattern.float, .integer, .string, .boolean, .identifier,
      .ifWord, .notWord, .sign]) : p.accept s = none := by
    cases hr : p.accept s with
    | none => rfl
    | some r => exact absurd (opens_of_accept hp hr) hs
  have hw : NoWord s := ⟨⟨none (by decide), none (by decide), none (by decide), none (by decide)⟩,
    none (by decide), none (by decide)⟩
  refine h.not_refuses (refuses_of_noWord hw ?_ (none (by decide)) (none (by decide)) R)
  have all : ∀ o ∈ ['(', '[', '\x7b'], o ∈ ['.', '"', '(', '[', '\x7b', '+', '-', '\''] := by decide
  rintro o ho r rfl
  exact hs ⟨o, r, rfl, .inr (.inr (all o ho))⟩

/-! ## Ends -/

/-- The text without the blanks that the grammar skips. -/
def solid (s : List Char) : List Char := s.filter fun c => !isPatternBlank c

theorem solid_append (s u : List Char) : solid (s ++ u) = solid s ++ solid u :=
  List.filter_append ..

theorem solid_cons (h : isPatternBlank c = false) (s : List Char) : solid (c :: s) = c :: solid s :=
  List.filter_cons_of_pos (by rw [h]; rfl)

theorem mem_solid : c ∈ solid s ↔ c ∈ s ∧ isPatternBlank c = false := by
  rw [solid, List.mem_filter, Bool.not_eq_true']

theorem solid_eq_nil_iff : solid s = [] ↔ ∀ c ∈ s, isPatternBlank c = true := by
  simp [solid, List.filter_eq_nil_iff]

theorem solid_skipBlanks (s : List Char) : solid (skipBlanks s) = solid s := by
  have hblank : solid (s.takeWhile isPatternBlank) = [] :=
    solid_eq_nil_iff.2 fun c => List.mem_takeWhile_imp
  have hsplit : s.takeWhile isPatternBlank ++ skipBlanks s = s := List.takeWhile_append_dropWhile
  rw [← congrArg solid hsplit, solid_append, hblank, List.nil_append]

/-- The last character that the grammar does not skip is firm, if there is one. -/
def EndsFirm (s : List Char) : Prop := ∀ c ∈ (solid s).getLast?, isFirm c = true

theorem endsFirm_of_solid (h : solid s = []) : EndsFirm s := by
  rw [EndsFirm, h]
  exact nofun

theorem endsFirm_of_forall (h : ∀ c ∈ w, isFirm c = true) : EndsFirm w :=
  fun c hc => h c (mem_solid.1 (List.mem_of_getLast? hc)).1

theorem endsFirm_concat (h : isFirm c = true) (w : List Char) : EndsFirm (w ++ [c]) := by
  have hsolid : solid (w ++ [c]) = solid w ++ [c] := by
    rw [solid_append, solid_cons (isFirm_eq_true h).2.1]
    rfl
  intro e he
  rw [hsolid, List.getLast?_concat] at he
  rwa [← Option.some.inj he]

/-- Only the last token counts for the end of a text. -/
theorem endsFirm_append (h : EndsFirm w) : EndsFirm (w ++ s) ↔ EndsFirm s := by
  unfold EndsFirm at h ⊢
  rw [solid_append, List.getLast?_append]
  cases (solid s).getLast? with
  | none => exact iff_of_true h nofun
  | some c => exact Iff.rfl

/-- A string ends with its quote. -/
theorem acceptString_concat (h : acceptString w = some []) : ∃ v, w = v ++ ['"'] := by
  have tail {w : List Char} (h : acceptStringTail w = some []) : ∃ v, w = v ++ ['"'] := by
    fun_induction acceptStringTail w with
    | case1 => cases h
    | case2 s => exact ⟨[], by rw [Option.some.inj h]; rfl⟩
    | case3 => cases h
    | case4 c s _ ih =>
      obtain ⟨v, rfl⟩ := ih h
      exact ⟨'\\' :: c :: v, rfl⟩
    | case5 => cases h
    | case6 c s _ _ _ ih =>
      obtain ⟨v, rfl⟩ := ih h
      exact ⟨c :: v, rfl⟩
  unfold acceptString at h
  split at h
  · obtain ⟨v, rfl⟩ := tail h
    exact ⟨'"' :: v, rfl⟩
  · cases h

/-- What a token reads ends with a firm character, if it is not blank. -/
theorem endsFirm_of_accept {p : Pattern} (h : p.accept s = some s') :
    ∃ w, s = w ++ s' ∧ EndsFirm w := by
  by_cases hb : p = .blanks
  · subst hb
    obtain rfl := Option.some.inj h
    refine ⟨s.takeWhile isPatternBlank, List.takeWhile_append_dropWhile.symm, ?_⟩
    exact endsFirm_of_solid (solid_eq_nil_iff.2 fun c => List.mem_takeWhile_imp)
  · by_cases hs : p = .string
    · subst hs
      obtain ⟨w, rfl, hw⟩ := acceptString_lexeme h
      obtain ⟨v, rfl⟩ := acceptString_concat hw
      exact ⟨_, rfl, endsFirm_concat (by decide) v⟩
    · obtain ⟨w, hsplit, hw⟩ := tokenChars_of_accept hb hs h
      exact ⟨w, hsplit, endsFirm_of_forall fun c hc => isFirm_of_isTokenChar (hw c hc)⟩

theorem endsFirm_of_moves {t : Terminal} {i j : Nat} (hm : course.moves t i j)
    (h : grammar.accept t s = some s') : EndsFirm s ↔ EndsFirm s' := by
  have literal {c : Char} (hc : isFirm c = true) (h : grammar.accept (.literal c) s = some s') :
      EndsFirm s ↔ EndsFirm s' := by
    obtain rfl := accept_literal.1 h
    exact endsFirm_append (w := [c]) (endsFirm_concat hc [])
  have hbracket : ∀ c ∈ openings ++ closings, isFirm c = true := by decide
  cases hm with
  | pattern p d =>
    obtain ⟨w, rfl, hw⟩ := endsFirm_of_accept h
    exact endsFirm_append hw
  | bang d => exact literal (by decide) h
  | comma d => exact literal (by decide) h
  | opening d hc => exact literal (hbracket _ (List.mem_append_left _ hc)) h
  | closing d hc => exact literal (hbracket _ (List.mem_append_right _ hc)) h

/-- What is read up to blanks at the end ends with a firm character. -/
theorem endsFirm_of_yields {t : Tree} (h : Yields grammar Reads.expression s t s')
    (hs' : skipBlanks s' = []) : EndsFirm s := by
  have hp : course.Passes 0 0 Tree.Like Reads.expression := passes_spaced .rule
  have hnil : solid s' = [] := by rw [← solid_skipBlanks, hs']; rfl
  exact (keeps_yields (I := fun _ => EndsFirm) passes_body endsFirm_of_moves hp h).2
    (endsFirm_of_solid hnil)

/-! ## Trimming -/

/-- What trimming takes from the ends of a text, the grammar skips; what is left does not begin like
a comment and does not end with a mark that ends statements. -/
structure HasEdges (s : List Char) : Prop where
  padded : ∃ front back, s = front ++ (strip s ++ back) ∧
    (∀ c ∈ front, isPatternBlank c = true) ∧ ∀ c ∈ back, isPatternBlank c = true
  head : ∃ c r, strip s = c :: r ∧ c ≠ '/'
  last : ∃ r c, strip s = r ++ [c] ∧ c ≠ ';' ∧ c ≠ '$'

/-- The blanks that only trimming knows are not firm, so none of them is at the beginning of a text
that begins with a firm character. -/
theorem solid_front {front rest : List Char}
    (h : ∀ c ∈ (solid (front ++ rest)).head?, isFirm c = true)
    (hfront : ∀ c ∈ front, isBlank c = true) : solid front = [] := by
  cases hf : solid front with
  | nil => rfl
  | cons c cs =>
    have hmem : c ∈ front := (mem_solid.1 (hf ▸ List.mem_cons_self)).1
    rw [solid_append, hf] at h
    cases (hfront c hmem).symm.trans (isFirm_eq_true (h c rfl)).1

/-- Nor is one of them at the end of a text that ends with a firm character. -/
theorem solid_back (h : EndsFirm (s ++ back)) (hback : ∀ c ∈ back, isBlank c = true) :
    solid back = [] := by
  cases hb : (solid back).getLast? with
  | none => exact List.getLast?_eq_none_iff.1 hb
  | some c =>
    have hmem : c ∈ back := (mem_solid.1 (List.mem_of_getLast? hb)).1
    have hlast : c ∈ (solid (s ++ back)).getLast? := by
      rw [solid_append]
      exact List.mem_getLast?_append_of_mem_getLast? hb
    cases (hback c hmem).symm.trans (isFirm_eq_true (h c hlast)).1

theorem hasEdges_of_parseTree {t : Tree} (h : parseTree s = .ok t) : HasEdges s := by
  obtain ⟨s', hr, hs'⟩ := yields_root.1 (parseTree_eq_ok.1 h)
  obtain ⟨c, r, hc, hopen⟩ := opens_of_reads hr
  have hhead : solid s = c :: solid r := by
    rw [← solid_skipBlanks, hc, solid_cons hopen.apart.1]
  have hend : EndsFirm s := endsFirm_of_yields (yields_iff.2 (derives_spaced.2 hr)) hs'
  obtain ⟨⟨front, back, hsplit, hfront, hback⟩, -, -⟩ := trims_strip s
  have hfront' : solid front = [] := by
    refine @solid_front front (strip s ++ back) (fun d hd => ?_) hfront
    rw [← hsplit, hhead] at hd
    rw [← Option.some.inj hd]
    exact hopen.isFirm
  have hback' : solid back = [] := by
    refine solid_back (s := front ++ strip s) ?_ hback
    rwa [List.append_assoc, ← hsplit]
  have hstrip : solid (strip s) = solid s := by
    nth_rewrite 2 [hsplit]
    rw [solid_append, solid_append, hfront', hback', List.append_nil, List.nil_append]
  refine ⟨⟨front, back, hsplit, solid_eq_nil_iff.1 hfront', solid_eq_nil_iff.1 hback'⟩, ?_, ?_⟩
  · cases hs : strip s with
    | nil => rw [hs, hhead] at hstrip; cases hstrip
    | cons d ds =>
      refine ⟨d, ds, rfl, ?_⟩
      rintro rfl
      rw [hs, hhead, solid_cons (by decide)] at hstrip
      exact hopen.ne_slash (List.cons.inj hstrip).1.symm
  · rcases List.eq_nil_or_concat (strip s) with hs | ⟨r, d, hs⟩
    · rw [hs, hhead] at hstrip
      cases hstrip
    · rw [List.concat_eq_append] at hs
      refine ⟨r, d, hs, ?_⟩
      cases hd : isPatternBlank d with
      | true =>
        have marks : ∀ m ∈ [';', '$'], isPatternBlank m = false := by decide
        refine ⟨?_, ?_⟩
        all_goals
          rintro rfl
          cases hd.symm.trans (marks _ (by decide))
      | false =>
        have hlast : d ∈ (solid s).getLast? := by
          rw [← hstrip, hs, solid_append, solid_cons hd]
          exact List.getLast?_concat
        exact (isFirm_eq_true (hend d hlast)).2.2

/-! ## Padding -/

/-- A string that is read before blanks is read without them. -/
theorem acceptString_unpad (hb : ∀ c ∈ back, isPatternBlank c = true)
    (h : acceptString (s ++ back) = some s') :
    ∃ s₁, acceptString s = some s₁ ∧ s' = s₁ ++ back := by
  obtain ⟨w, hw, hlexeme⟩ := acceptString_lexeme h
  obtain ⟨v, rfl⟩ := acceptString_concat hlexeme
  rw [List.append_assoc, List.singleton_append] at hw
  rcases split_append hw with ⟨after, rfl⟩ | ⟨before, -, rfl⟩
  · have hread := acceptString_append hlexeme after
    refine ⟨after, by simpa using hread, ?_⟩
    simpa using hw.symm
  · cases hb '"' (List.mem_append_right _ List.mem_cons_self)

/-- Blanks after a text close none of its brackets. -/
theorem Shut.unpad (hb : ∀ c ∈ back, isPatternBlank c = true) (h : Shut d (s ++ back)) :
    Shut d s := by
  have hplain : ∀ c ∈ back, isPlain c = true := fun c hc => isPlain_of (by decide) (hb c hc)
  have hnil {d : Nat} (h : Shut d ([] ++ back)) : Shut d [] := by
    rw [List.nil_append, ← List.append_nil back] at h
    exact (shut_append hplain).1 h
  generalize hu : s ++ back = u at h
  induction h generalizing s with
  | nil =>
    rw [(List.append_eq_nil_iff.1 hu).1]
    exact .nil
  | plain hc h ih =>
    rcases List.append_eq_cons_iff.1 hu with ⟨rfl, rfl⟩ | ⟨s, rfl, rfl⟩
    · exact hnil (.plain hc h)
    · exact .plain hc (ih rfl)
  | opening hc h ih =>
    rcases List.append_eq_cons_iff.1 hu with ⟨rfl, rfl⟩ | ⟨s, rfl, rfl⟩
    · exact hnil (.opening hc h)
    · exact .opening hc (ih rfl)
  | closing hc h ih =>
    rcases List.append_eq_cons_iff.1 hu with ⟨rfl, rfl⟩ | ⟨s, rfl, rfl⟩
    · exact hnil (.closing hc h)
    · exact .closing hc (ih rfl)
  | string hs h ih =>
    subst hu
    obtain ⟨s₁, hs₁, rfl⟩ := acceptString_unpad hb hs
    exact .string hs₁ (ih rfl)

/-- What is read from an accepted text is read from it without the blanks at its ends. -/
theorem parseTree_strip {t : Tree} (h : parseTree s = .ok t) :
    ∃ u, parseTree (strip s) = .ok u ∧ u.Like t := by
  obtain ⟨front, back, hsplit, hfront, hback⟩ := (hasEdges_of_parseTree h).padded
  obtain ⟨s', hr, hs'⟩ := yields_root.1 (parseTree_eq_ok.1 h)
  rw [hsplit, skipBlanks_append_of_blank hfront] at hr
  have hy : Yields grammar Reads.expression (strip s ++ back) t s' :=
    yields_iff.2 (derives_spaced.2 hr)
  have hnil : skipBlanks back = [] := List.dropWhile_eq_nil_iff.2 hback
  have hend : EndsToken (skipBlanks back) := by
    rw [hnil]
    trivial
  have hp : course.Passes 0 0 Tree.Like Reads.expression := passes_spaced .rule
  obtain ⟨u, r, hu, hlike, hrest⟩ := agrees_yields_back (alike_continued hend) passes_body hp
    ⟨(shut_of_yields hy hs').unpad hback, .inl rfl⟩ hy
  refine ⟨u, parseTree_eq_ok.2 (yields_root.2 ⟨r, derives_spaced.1 (yields_iff.1 hu), ?_⟩), hlike⟩
  rcases hrest.rest with rfl | ⟨rfl, -⟩
  · rw [skipBlanks_append] at hs'
    split at hs'
    · next he => exact List.isEmpty_iff.1 he
    · exact (List.append_eq_nil_iff.1 hs').1
  · rfl

end AlgebraBatch.Syntax
