import AlgebraBatch.Proofs.Syntax.Lexeme

/-!
# Float lexemes

An `IsDecimal` text is digits, perhaps with a point among them, and perhaps an exponent. What the
grammar reads as a float is one, in the digits of any scripts, and every one is a float lexeme.
-/

namespace AlgebraBatch

open AlgebraBatch.Text AlgebraBatch.Syntax

namespace Numeral

/-- An exponent with one of the marks, or nothing. -/
def IsExponent (digit : Char → Bool) (marks : List Char) (s : List Char) : Prop :=
  s = [] ∨ ∃ m ∈ marks, ∃ sign ∈ [[], ['+'], ['-']], ∃ d ds,
    s = m :: (sign ++ d :: ds) ∧ ∀ c ∈ d :: ds, digit c = true

/-- A point and digits, or nothing. -/
def IsFraction (digit : Char → Bool) (s : List Char) : Prop :=
  s = [] ∨ ∃ ds, s = '.' :: ds ∧ ∀ c ∈ ds, digit c = true

/-- Digits before or after a point and an exponent. -/
structure IsDecimal (digit : Char → Bool) (marks whole fraction exponent : List Char) : Prop where
  isWhole : ∀ c ∈ whole, digit c = true
  isFraction : IsFraction digit fraction
  isExponent : IsExponent digit marks exponent
  hasDigits : whole ≠ [] ∨ 1 < fraction.length
  hasMark : fraction ≠ [] ∨ exponent ≠ []

section

variable {digit digit' : Char → Bool} {marks marks' whole fraction exponent : List Char}

theorem IsDecimal.map {f : Char → Char} (hd : ∀ c, digit c = true → digit' (f c) = true)
    (hf : ∀ c ∈ ['.', '+', '-'], f c = c) (hm : ∀ m ∈ marks, f m ∈ marks')
    (h : IsDecimal digit marks whole fraction exponent) :
    IsDecimal digit' marks' (whole.map f) (fraction.map f) (exponent.map f) := by
  refine ⟨List.forall_mem_map.2 fun c hc => hd c (h.isWhole c hc), ?_, ?_, ?_, ?_⟩
  · rcases h.isFraction with rfl | ⟨ds, rfl, hds⟩
    · exact .inl rfl
    · refine .inr ⟨ds.map f, ?_, List.forall_mem_map.2 fun c hc => hd c (hds c hc)⟩
      rw [List.map_cons, hf '.' (by decide)]
  · rcases h.isExponent with rfl | ⟨m, hm', sign, hs, d, ds, rfl, hds⟩
    · exact .inl rfl
    · refine .inr ⟨f m, hm m hm', sign, hs, f d, ds.map f, ?_,
        List.forall_mem_map.2 fun c hc => hd c (hds c hc)⟩
      have hsign : sign.map f = sign := by
        refine (List.map_congr_left fun c hc => hf c ?_).trans (List.map_id' sign)
        have signs : ∀ s ∈ [[], ['+'], ['-']], ∀ c ∈ s, c ∈ ['.', '+', '-'] := by decide
        exact signs sign hs c hc
      rw [List.map_cons, List.map_append, hsign, List.map_cons]
  · rw [List.length_map]
    exact h.hasDigits.imp_left fun hw => mt List.map_eq_nil_iff.1 hw
  · exact h.hasMark.imp (fun hf => mt List.map_eq_nil_iff.1 hf)
      fun hx => mt List.map_eq_nil_iff.1 hx

/-- An exponent begins with one of the marks. -/
theorem IsExponent.head {c : Char} {r : List Char} (h : IsExponent digit marks (c :: r))
    (hm : ∀ m ∈ marks, digit m = false ∧ m ≠ '.') : digit c = false ∧ c ≠ '.' := by
  rcases h with he | ⟨m, hmem, sign, hs, d, ds, he, hds⟩
  · cases he
  · cases he
    exact hm _ hmem

/-- The characters of a decimal. -/
theorem IsDecimal.mem (h : IsDecimal digit marks whole fraction exponent) {c : Char}
    (hc : c ∈ whole ++ (fraction ++ exponent)) :
    digit c = true ∨ c ∈ ['.', '+', '-'] ∨ c ∈ marks := by
  rcases List.mem_append.1 hc with hc | hc
  · exact .inl (h.isWhole c hc)
  · rcases List.mem_append.1 hc with hc | hc
    · rcases h.isFraction with rfl | ⟨ds, rfl, hds⟩
      · cases hc
      · rcases List.mem_cons.1 hc with rfl | hc
        · exact .inr (.inl (by decide))
        · exact .inl (hds c hc)
    · rcases h.isExponent with rfl | ⟨m, hm, sign, hs, d, ds, rfl, hds⟩
      · cases hc
      · rcases List.mem_cons.1 hc with rfl | hc
        · exact .inr (.inr hm)
        · rcases List.mem_append.1 hc with hc | hc
          · have signs : ∀ s ∈ [[], ['+'], ['-']], ∀ c ∈ s, c ∈ ['.', '+', '-'] := by decide
            exact .inr (.inl (signs sign hs c hc))
          · exact .inl (hds c hc)

end

/-! ## Float lexemes -/

theorem isExponent_of_acceptExponent {s s' : List Char} (h : acceptExponent s = some s') :
    ∃ x, s = x ++ s' ∧ x ≠ [] ∧ IsExponent isDecimalDigit ['e', 'E', 'b', 'B'] x := by
  cases s with
  | nil => cases h
  | cons m s =>
    rw [acceptExponent] at h
    split at h
    · next hm =>
      have hm : m ∈ ['e', 'E', 'b', 'B'] := by simpa [or_assoc] using hm
      unfold acceptInteger at h
      split at h
      · next hd =>
        cases hs : dropSign s with
        | nil => rw [hs] at hd; cases hd
        | cons d ds =>
          rw [hs] at h hd
          obtain rfl : dropDigits (d :: ds) = s' := Option.some.inj h
          have hsign : ∃ sign ∈ [[], ['+'], ['-']], s = sign ++ d :: ds := by
            unfold dropSign at hs
            split at hs
            · exact ⟨['+'], by decide, by rw [hs]; rfl⟩
            · exact ⟨['-'], by decide, by rw [hs]; rfl⟩
            · exact ⟨[], by decide, hs⟩
          obtain ⟨sign, hsign, rfl⟩ := hsign
          have htake := List.takeWhile_cons_of_pos (l := ds) (p := isDecimalDigit) hd
          refine ⟨m :: (sign ++ (d :: ds).takeWhile isDecimalDigit), ?_, List.cons_ne_nil _ _,
            .inr ⟨m, hm, sign, hsign, d, _, by rw [htake], ?_⟩⟩
          · rw [List.cons_append, List.append_assoc, dropDigits, List.takeWhile_append_dropWhile]
          · rw [← htake]
            exact fun c hc => List.mem_takeWhile_imp hc
      · cases h
    · cases h

theorem isExponent_of_dropExponent (s : List Char) :
    ∃ x, s = x ++ dropExponent s ∧ IsExponent isDecimalDigit ['e', 'E', 'b', 'B'] x := by
  unfold dropExponent
  cases h : acceptExponent s with
  | none => exact ⟨[], rfl, .inl rfl⟩
  | some s' =>
    obtain ⟨x, hs, -, hx⟩ := isExponent_of_acceptExponent h
    exact ⟨x, hs, hx⟩

/-- A float is a decimal with a point or an exponent. -/
theorem isDecimal_of_acceptFloat {s s' : List Char} (h : acceptFloat s = some s') :
    ∃ whole fraction exponent, s = whole ++ (fraction ++ exponent) ++ s' ∧
      IsDecimal isDecimalDigit ['e', 'E', 'b', 'B'] whole fraction exponent := by
  have split_digits (s : List Char) : s = s.takeWhile isDecimalDigit ++ dropDigits s :=
    List.takeWhile_append_dropWhile.symm
  have taken (s : List Char) : ∀ c ∈ s.takeWhile isDecimalDigit, isDecimalDigit c = true :=
    fun c hc => List.mem_takeWhile_imp hc
  cases s with
  | nil => cases h
  | cons c s =>
    rw [acceptFloat] at h
    split at h
    · next hc =>
      have hwhole : ∀ d ∈ c :: s.takeWhile isDecimalDigit, isDecimalDigit d = true :=
        List.forall_mem_cons.2 ⟨hc, taken s⟩
      split at h
      · next s₁ e =>
        cases h
        obtain ⟨x, hs₁, hx⟩ := isExponent_of_dropExponent (dropDigits s₁)
        refine ⟨c :: s.takeWhile isDecimalDigit, '.' :: s₁.takeWhile isDecimalDigit, x, ?_,
          hwhole, .inr ⟨_, rfl, taken s₁⟩, hx, .inl (List.cons_ne_nil _ _),
          .inl (List.cons_ne_nil _ _)⟩
        have hs := split_digits s
        rw [e] at hs
        rw [List.append_assoc, List.append_assoc, ← hs₁, List.cons_append, List.cons_append,
          ← split_digits s₁, ← hs]
      · obtain ⟨x, hs, hne, hx⟩ := isExponent_of_acceptExponent h
        refine ⟨c :: s.takeWhile isDecimalDigit, [], x, ?_, hwhole, .inl rfl, hx,
          .inl (List.cons_ne_nil _ _), .inr hne⟩
        rw [List.append_assoc, List.nil_append, ← hs, List.cons_append, ← split_digits s]
    · split at h
      · next hc =>
        obtain ⟨s₁, h₁, rfl⟩ := Option.map_eq_some_iff.1 h
        unfold acceptInteger at h₁
        split at h₁
        · next hd =>
          cases h₁
          obtain ⟨x, hs, hx⟩ := isExponent_of_dropExponent (dropDigits s)
          refine ⟨[], '.' :: s.takeWhile isDecimalDigit, x, ?_, List.forall_mem_nil _,
            .inr ⟨_, rfl, taken s⟩, hx, .inr ?_, .inl (List.cons_ne_nil _ _)⟩
          · rw [eq_of_beq hc, List.append_assoc, List.append_assoc, ← hs, List.nil_append,
              List.cons_append, ← split_digits s]
          · cases s with
            | nil => cases hd
            | cons d s =>
              rw [List.takeWhile_cons_of_pos (show isDecimalDigit d = true from hd)]
              exact Nat.succ_lt_succ (Nat.succ_pos _)
        · cases h₁
      · cases h

section

variable {whole fraction exponent : List Char}

theorem acceptExponent_of_isExponent
    (h : IsExponent isDecimalDigit ['e', 'E', 'b', 'B'] exponent) (hne : exponent ≠ []) :
    acceptExponent exponent = some [] := by
  rcases h with rfl | ⟨m, hm, sign, hs, d, ds, rfl, hds⟩
  · exact absurd rfl hne
  · have hmark : (m == 'e' || m == 'E' || m == 'b' || m == 'B') = true := by
      simpa [or_assoc] using hm
    have hd := hds d List.mem_cons_self
    have hsign : dropSign (sign ++ d :: ds) = d :: ds := by
      simp only [List.mem_cons, List.not_mem_nil, or_false] at hs
      rcases hs with rfl | rfl | rfl
      · rw [List.nil_append, dropSign]
        · rintro _ e; cases e; revert hd; decide
        · rintro _ e; cases e; revert hd; decide
      · rfl
      · rfl
    have hstart : startsWithDigit (d :: ds) = true := hd
    rw [acceptExponent, if_pos hmark, hsign, acceptInteger, if_pos hstart, dropDigits,
      List.dropWhile_eq_nil_iff.2 hds]

/-- What a float is made of makes a float. -/
theorem acceptFloat_of_isDecimal
    (h : IsDecimal isDecimalDigit ['e', 'E', 'b', 'B'] whole fraction exponent) :
    acceptFloat (whole ++ (fraction ++ exponent)) = some [] := by
  have hx : dropExponent exponent = [] := by
    by_cases hne : exponent = []
    · subst hne; rfl
    · rw [dropExponent, acceptExponent_of_isExponent h.isExponent hne]; rfl
  have hexp : ∀ c r, exponent = c :: r → isDecimalDigit c = false ∧ c ≠ '.' := by
    rintro c r rfl
    exact h.isExponent.head (by decide)
  have hdrop (ds : List Char) (hds : ∀ c ∈ ds, isDecimalDigit c = true) :
      dropDigits (ds ++ exponent) = exponent := by
    rw [dropDigits, List.dropWhile_append_of_pos hds]
    cases exponent with
    | nil => rfl
    | cons c r =>
      exact List.dropWhile_cons_of_neg (ne_true_of_eq_false (hexp c r rfl).1)
  have point : isDecimalDigit '.' = false := by decide
  cases whole with
  | nil =>
    rcases h.isFraction with rfl | ⟨ds, rfl, hds⟩
    · exact absurd h.hasDigits (by simp)
    · have hne : ds ≠ [] := by rintro rfl; exact absurd h.hasDigits (by simp)
      have hstart : startsWithDigit (ds ++ exponent) = true := by
        cases ds with
        | nil => exact absurd rfl hne
        | cons d ds => exact hds d List.mem_cons_self
      rw [List.nil_append, List.cons_append, acceptFloat, point, if_neg Bool.false_ne_true,
        if_pos (beq_self_eq_true _), acceptInteger, if_pos hstart, hdrop ds hds, Option.map_some, hx]
  | cons c whole =>
    have hw : ∀ d ∈ whole, isDecimalDigit d = true := fun d hd =>
      h.isWhole d (List.mem_cons_of_mem _ hd)
    rw [List.cons_append, acceptFloat, if_pos (h.isWhole c List.mem_cons_self)]
    rcases h.isFraction with rfl | ⟨ds, rfl, hds⟩
    · have hne := h.hasMark.resolve_left fun hf => hf rfl
      rw [List.nil_append, hdrop whole hw]
      split
      · exact absurd rfl (hexp _ _ rfl).2
      · exact acceptExponent_of_isExponent h.isExponent hne
    · have hd : dropDigits (whole ++ ('.' :: ds ++ exponent)) = '.' :: (ds ++ exponent) := by
        rw [dropDigits, List.dropWhile_append_of_pos hw]
        exact List.dropWhile_cons_of_neg (ne_true_of_eq_false point)
      rw [hd]
      simp only [hdrop ds hds, hx]

/-- What is read as a float is a float on its own. -/
theorem float_lexeme {s s' : List Char} (h : Pattern.float.accept s = some s') :
    ∃ u, s = u ++ s' ∧ Pattern.float.IsLexeme u := by
  obtain ⟨whole, fraction, exponent, hs, hd⟩ := isDecimal_of_acceptFloat h
  exact ⟨_, hs, acceptFloat_of_isDecimal hd⟩

end

end Numeral

end AlgebraBatch
