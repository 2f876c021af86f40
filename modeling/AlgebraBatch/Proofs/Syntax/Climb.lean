import AlgebraBatch.Proofs.Syntax.Derivation
import AlgebraBatch.Proofs.Syntax.Lexeme

/-!
# From one rule to a looser one

A rule reads what the next `tighter` rule reads if nothing at hand is its own: no operator of the
rule follows, and the text does not begin with its prefix. So what a rule reads is read by every
looser rule, if no operator of these follows (`Stops`) and none of their prefixes comes before.
In the same way every rule is refused where a primary expression is and no prefix stands.
-/

namespace AlgebraBatch.Syntax

open AlgebraBatch.Text Peg

namespace Rule

theorem mem_all (R : Rule) : R ∈ all := by
  cases R <;> decide

/-- The rule that reads the operands of a rule. -/
def tighter : Rule → Rule
  | assignment => disjunction
  | disjunction => conjunction
  | conjunction => negation
  | negation => relation
  | relation => sum
  | sum => product
  | product => signed
  | signed => dotProduct
  | dotProduct => power
  | exponent => power
  | power => factorial
  | factorial => primary
  | primary => primary

/-- The operator between the operands of a rule. -/
def operator? : Rule → Option Pattern
  | assignment => some .assignment
  | disjunction => some .orWord
  | conjunction => some .andWord
  | relation => some .relation
  | sum => some .addition
  | product => some .multiplication
  | dotProduct => some .dot
  | power => some .power
  | negation | signed | exponent | factorial | primary => none

theorem tighter_rank_lt {R : Rule} (h : R ≠ primary) : R.tighter.rank < R.rank := by
  have all : ∀ R ∈ all, R ≠ primary → R.tighter.rank < R.rank := by decide
  exact all R R.mem_all h

theorem rank_le_tighter {Q R : Rule} (hQ : Q ≠ exponent) (h : Q.rank ≤ R.rank) (hne : Q ≠ R) :
    Q.rank ≤ R.tighter.rank := by
  have all : ∀ Q ∈ all, ∀ R ∈ all, Q ≠ exponent → Q.rank ≤ R.rank → Q ≠ R →
      Q.rank ≤ R.tighter.rank := by decide
  exact all Q Q.mem_all R R.mem_all hQ h hne

end Rule

/-- The word `not` and its operand. -/
abbrev Reads.notForm : Reads Tree := Reads.prefixed .notWord .negation

/-- What `R` reads may end before this text: no operator of `R` or of a tighter rule follows. -/
structure Stops (R : Rule) (s : List Char) : Prop where
  boundary : IsBoundary s
  operators {Q : Rule} {p : Pattern} : Q.rank ≤ R.rank → Q.operator? = some p →
    p.accept (skipBlanks s) = none
  bang : Rule.factorial.rank ≤ R.rank → ∀ r, s ≠ '!' :: r

theorem Stops.mono {Q R : Rule} {s : List Char} (h : Stops R s) (hQ : Q.rank ≤ R.rank) :
    Stops Q s where
  boundary := h.boundary
  operators hP := h.operators (hP.trans hQ)
  bang hb := h.bang (hb.trans hQ)

variable {s s' : List Char} {t : Tree}

theorem refuses_spaced {α : Type} {a : Reads α} :
    Refuses grammar (Reads.spaced a) s ↔ Refuses grammar a (skipBlanks s) := by
  rw [Reads.spaced, Reads.skip, refuses_map, refuses_seq, Reads.blanks, refuses_token]
  constructor
  · rintro (h | ⟨x, s₁, hb, h⟩)
    · cases h
    · obtain ⟨hb, -⟩ := yields_iff.1 hb
      cases hb
      exact h
  · exact fun h => .inr ⟨.between s (skipBlanks s), _, yields_of_derives ⟨rfl, rfl⟩, h⟩

theorem refuses_continued {p : Pattern} {R : Rule} (h : p.accept (skipBlanks s) = none) :
    Refuses grammar (Reads.continued p R) s :=
  refuses_spaced.2 (refuses_seq.2 (.inl (refuses_token.2 h)))

theorem refuses_prefixed {p : Pattern} {R : Rule} (h : p.accept s = none) :
    Refuses grammar (Reads.prefixed p R) s :=
  refuses_map.2 (refuses_spanned.2 (refuses_seq.2 (.inl (refuses_token.2 h))))

/-- What the tighter rule reads, if nothing at hand is the rule's own. -/
theorem reads_of_tighter {R : Rule} (hR : R ≠ .primary) (h : ReadsAs R.tighter s t s')
    (hs : Stops R s') (hnot : R = .negation → Refuses grammar Reads.notForm s)
    (hsign : R = .signed ∨ R = .exponent → Pattern.sign.accept s = none) : ReadsAs R s t s' := by
  have next {Q : Rule} {p : Pattern} (hp : R.operator? = some p) :
      Refuses grammar (Reads.continued p Q) s' := refuses_continued (hs.operators (Nat.le_refl _) hp)
  refine yields_rule_iff.2 ?_
  cases R with
  | assignment => exact derives_rightChain.2 (.inl ⟨h, next rfl⟩)
  | disjunction => exact derives_leftChain.2 ⟨.one h, next rfl⟩
  | conjunction => exact derives_leftChain.2 ⟨.one h, next rfl⟩
  | negation => exact .inr ⟨hnot rfl, h⟩
  | relation => exact derives_leftChain.2 ⟨.one h, next rfl⟩
  | sum => exact derives_leftChain.2 ⟨.one h, next rfl⟩
  | product => exact derives_leftChain.2 ⟨.one h, next rfl⟩
  | signed => exact .inr ⟨refuses_prefixed (hsign (.inl rfl)), h⟩
  | dotProduct => exact derives_leftChain.2 ⟨.one h, next rfl⟩
  | exponent => exact .inr ⟨refuses_prefixed (hsign (.inr rfl)), h⟩
  | power => exact derives_rightChain.2 (.inl ⟨h, next rfl⟩)
  | factorial => exact derives_factorial.2 (.inl ⟨h, hs.bang (Nat.le_refl _)⟩)
  | primary => exact absurd rfl hR

/-- What a rule reads, every looser rule reads, if nothing at hand is its own or that of a rule in
between. -/
theorem reads_of_rank_le {Q R : Rule} (hQ : Q ≠ .exponent) (hle : Q.rank ≤ R.rank)
    (h : ReadsAs Q s t s') (hs : Stops R s')
    (hnot : Q.rank < Rule.negation.rank → Rule.negation.rank ≤ R.rank →
      Refuses grammar Reads.notForm s)
    (hsign : Q.rank < Rule.signed.rank → Pattern.sign.accept s = none) : ReadsAs R s t s' := by
  by_cases hne : Q = R
  · subst hne
    exact h
  · have hR : R ≠ .primary := by
      rintro rfl
      exact hne (by revert hle; cases Q <;> decide)
    have hlt := Rule.tighter_rank_lt hR
    have hQ' := Rule.rank_le_tighter hQ hle hne
    have ht := reads_of_rank_le hQ hQ' h (hs.mono hlt.le) (fun hq hn => hnot hq (hn.trans hlt.le))
      hsign
    refine reads_of_tighter hR ht hs ?_ ?_
    · rintro rfl
      exact hnot (Nat.lt_of_le_of_lt hQ' hlt) (Nat.le_refl _)
    · rintro (rfl | rfl)
      · exact hsign (Nat.lt_of_le_of_lt hQ' hlt)
      · exact hsign (Nat.lt_of_le_of_lt hle (by decide))
termination_by R.rank

/-! ## Refusal -/

theorem refuses_leftChain {p : Pattern} {R : Rule} (h : Refuses grammar (.rule R) s) :
    Refuses grammar (Reads.leftChain p R) s :=
  refuses_map.2 (refuses_seq.2 (.inl h))

theorem refuses_rightChain {p : Pattern} {R C : Rule} (h : Refuses grammar (.rule R) s) :
    Refuses grammar (Reads.rightChain p R C) s :=
  refuses_map.2 (refuses_seq.2 (.inl h))

theorem refuses_of_tighter {R : Rule} (hR : R ≠ .primary) (h : Refuses grammar (.rule R.tighter) s)
    (hnot : Pattern.notWord.accept s = none) (hsign : Pattern.sign.accept s = none) :
    Refuses grammar (.rule R) s := by
  refine refuses_rule.2 ?_
  cases R with
  | assignment => exact refuses_rightChain h
  | disjunction => exact refuses_leftChain h
  | conjunction => exact refuses_leftChain h
  | negation => exact refuses_orElse.2 ⟨refuses_prefixed hnot, h⟩
  | relation => exact refuses_leftChain h
  | sum => exact refuses_leftChain h
  | product => exact refuses_leftChain h
  | signed => exact refuses_orElse.2 ⟨refuses_prefixed hsign, h⟩
  | dotProduct => exact refuses_leftChain h
  | exponent => exact refuses_orElse.2 ⟨refuses_prefixed hsign, h⟩
  | power => exact refuses_rightChain h
  | factorial => exact refuses_map.2 (refuses_spanned.2 (refuses_seq.2 (.inl h)))
  | primary => exact absurd rfl hR

theorem refuses_of_primary {R : Rule} (h : Refuses grammar (.rule .primary) s)
    (hnot : Pattern.notWord.accept s = none) (hsign : Pattern.sign.accept s = none) :
    Refuses grammar (.rule R) s := by
  by_cases hR : R = .primary
  · subst hR
    exact h
  · have hlt := Rule.tighter_rank_lt hR
    exact refuses_of_tighter hR (refuses_of_primary h hnot hsign) hnot hsign
termination_by R.rank

end AlgebraBatch.Syntax
