import AlgebraBatch.Proofs.Decimal.Unsigned
import AlgebraBatch.Proofs.Syntax.Climb
import AlgebraBatch.Proofs.Syntax.WellFormed

/-!
# Precedences and rules

`ruleAt m` is the rule that reads the operations of precedence `m`, and operands of precedence `m`
or more. The `level` of an expression is the rule that reads it as what it is. Printed text agrees
with the rules: after its spaces, an operator is read as the operator of its own rule, and none of
the tighter rules would take it.
-/

namespace AlgebraBatch.Syntax

open AlgebraBatch.Text Peg AlgebraBatch.Expr

/-- The greatest precedence of what each rule reads as its own, the loosest rule first. -/
def ladder : List (Nat × Rule) :=
  [(10, .assignment), (20, .disjunction), (30, .conjunction), (40, .negation), (50, .relation),
    (60, .sum), (70, .product), (75, .signed), (78, .dotProduct), (80, .power), (90, .factorial)]

def ruleAt (m : Nat) : Rule :=
  (ladder.find? fun step => m ≤ step.1).elim .primary Prod.snd

theorem find_rank_anti {m p : Nat} (h : m ≤ p) {steps : List (Nat × Rule)}
    (hs : steps.Pairwise fun x y => y.2.rank ≤ x.2.rank) :
    ((steps.find? fun step => p ≤ step.1).elim .primary Prod.snd).rank ≤
      ((steps.find? fun step => m ≤ step.1).elim .primary Prod.snd).rank := by
  induction steps with
  | nil => exact Nat.le_refl _
  | cons x steps ih =>
    obtain ⟨hx, hs⟩ := List.pairwise_cons.1 hs
    rw [List.find?_cons, List.find?_cons]
    by_cases hm : m ≤ x.1
    · by_cases hp : p ≤ x.1
      · simp only [hm, hp, decide_true, Nat.le_refl]
      · simp only [hm, hp, decide_true, decide_false]
        cases e : steps.find? fun step => p ≤ step.1 with
        | none => exact Nat.zero_le _
        | some y => exact hx y (List.mem_of_find?_eq_some e)
    · have hp : ¬ p ≤ x.1 := fun hp => hm (h.trans hp)
      simp only [hm, hp, decide_false]
      exact ih hs

/-- The greater the precedence, the tighter the rule. -/
theorem ruleAt_rank_anti {m p : Nat} (h : m ≤ p) : (ruleAt p).rank ≤ (ruleAt m).rank :=
  find_rank_anti h (by decide)

theorem ruleAt_ne_exponent (m : Nat) : ruleAt m ≠ .exponent := by
  unfold ruleAt
  cases e : ladder.find? fun step => m ≤ step.1 with
  | none => nofun
  | some x =>
    have all : ∀ x ∈ ladder, x.2 ≠ .exponent := by decide
    exact all x (List.mem_of_find?_eq_some e)

/-- The rule that reads an expression as what it is. -/
def level : Expr → Rule
  | .conditional _ _ => .primary
  | e => ruleAt (precedence e)

theorem level_prefixed (op : String) (e : Expr) :
    level (.prefixed op e) = ruleAt (prefixPrecedence op) := rfl

theorem level_ne_exponent (e : Expr) : level e ≠ .exponent := by
  unfold level
  split
  · nofun
  · exact ruleAt_ne_exponent _

theorem level_rank_le {e : Expr} {m : Nat} (h : m ≤ precedence e) :
    (level e).rank ≤ (ruleAt m).rank := by
  unfold level
  split
  · exact Nat.zero_le _
  · exact ruleAt_rank_anti h

theorem level_of_atom {e : Expr} (h : precedence e = atomPrecedence) : level e = .primary := by
  unfold level
  split
  · rfl
  · rw [h]; rfl

/-! ## Characters that begin an expression -/

/-- The first character of a printed expression. -/
def IsOpening (c : Char) : Prop :=
  isNameStart c = true ∨ isDecimalDigit c = true ∨
    c ∈ ['.', '"', '(', '[', '\x7b', '+', '-', '\'']

/-- The operators that consist of marks begin with none of the characters that begin an
expression, apart from the signs. -/
theorem IsOpening.apart {c : Char} (h : IsOpening c) :
    isPatternBlank c = false ∧ c ∉ ['*', ':', '=', '^', '!', ')', ']', '\x7d', ','] := by
  rcases h with h | h | h
  · refine ⟨not_isPatternBlank_of_isNameStart h, fun hc => ?_⟩
    have all : ∀ c ∈ ['*', ':', '=', '^', '!', ')', ']', '\x7d', ','], isNameStart c = false := by
      decide
    rw [all c hc] at h
    cases h
  · refine ⟨not_isPatternBlank_of_isDecimalDigit h, fun hc => ?_⟩
    have all : ∀ c ∈ ['*', ':', '=', '^', '!', ')', ']', '\x7d', ','],
        isDecimalDigit c = false := by decide
    rw [all c hc] at h
    cases h
  · have all : ∀ c ∈ ['.', '"', '(', '[', '\x7b', '+', '-', '\''],
        isPatternBlank c = false ∧ c ∉ ['*', ':', '=', '^', '!', ')', ']', '\x7d', ','] := by
      decide
    exact all c h

/-- The text begins with the first character of an expression. -/
def Opens (u : List Char) : Prop := ∃ c r, u = c :: r ∧ IsOpening c

theorem Opens.skipBlanks {u : List Char} (h : Opens u) : skipBlanks u = u := by
  obtain ⟨c, r, rfl, hc⟩ := h
  exact List.dropWhile_cons_of_neg (ne_true_of_eq_false hc.apart.1)

theorem skipBlanks_space (u : List Char) : skipBlanks (' ' :: u) = skipBlanks u := rfl

theorem text_between_append (s r : List Char) :
    (Piece.between (s ++ r) r).text = String.ofList s := by
  rw [Piece.between, List.length_append, Nat.add_sub_cancel, List.take_left]

/-! ## Operators -/

/-- The operators that are printed as they are read. -/
def printedOperators : List String :=
  [":", ":=", "or", "and", "=", "#", "<", ">", "<=", ">=", "+", "-", "*", "/", ".", "^", "^^"]

theorem mem_printedOperators {op : String} (h : op ∈ binaryOperators.map Prod.fst)
    (hne : op ≠ "**") : op ∈ printedOperators := by
  have all : ∀ op ∈ binaryOperators.map Prod.fst, op ≠ "**" → op ∈ printedOperators := by decide
  exact all op h hne

/-- The rule that an operator belongs to. -/
abbrev operatorRule (op : String) : Rule := ruleAt (binaryPrecedence op)

theorem level_operation (op : String) (l r : Expr) :
    level (.operation op l r) = operatorRule op := rfl

/-- What is printed after an operator. -/
def afterOperator (op : String) (u : List Char) : List Char :=
  if isSpaced op then ' ' :: u else u

theorem skipBlanks_operatorText {op : String} (h : op ∈ printedOperators) (u : List Char) :
    skipBlanks (operatorText op ++ u) = op.toList ++ afterOperator op u := by
  simp only [printedOperators, List.mem_cons, List.not_mem_nil, or_false] at h
  rcases h with rfl | rfl | rfl | rfl | rfl | rfl | rfl | rfl | rfl | rfl | rfl | rfl | rfl | rfl |
    rfl | rfl | rfl <;> rfl

theorem skipBlanks_afterOperator {op : String} {u : List Char} (h : Opens u) :
    skipBlanks (afterOperator op u) = u := by
  unfold afterOperator
  split
  · rw [skipBlanks_space, h.skipBlanks]
  · exact h.skipBlanks

theorem acceptAssignment_colon {c : Char} (hc : c ∉ ['=', ':']) (r : List Char) :
    acceptAssignment (':' :: c :: r) = some (c :: r) := by
  unfold acceptAssignment
  split
  · next e => cases e; exact absurd (by decide) hc
  · next e => cases e; exact absurd (by decide) hc
  · next e => cases e; rfl
  · next h => exact absurd rfl (h _)

theorem acceptMultiplication_star {c : Char} (hc : c ≠ '*') (r : List Char) :
    acceptMultiplication ('*' :: c :: r) = some (c :: r) := by
  unfold acceptMultiplication
  split
  · next e => cases e; exact absurd rfl hc
  · next e => cases e; rfl
  · next e => cases e
  · next h _ => exact absurd rfl (h _)

theorem acceptPower_star {c : Char} (hc : c ≠ '*') (r : List Char) :
    Pattern.power.accept ('*' :: c :: r) = none := by
  change acceptAny _ ('*' :: c :: r) = none
  simp [acceptAny, hc.symm]

/-- The operator is read where it is printed. -/
theorem accept_operator {op : String} (h : op ∈ printedOperators) {u : List Char} (hu : Opens u) :
    ∃ p, (operatorRule op).operator? = some p ∧
      p.accept (op.toList ++ afterOperator op u) = some (afterOperator op u) := by
  obtain ⟨c, r, rfl, hc⟩ := hu
  have apart := hc.apart.2
  have heq : c ≠ '=' := by rintro rfl; exact apart (by decide)
  have hstar : c ≠ '*' := by rintro rfl; exact apart (by decide)
  have hcolon : c ≠ ':' := by rintro rfl; exact apart (by decide)
  have hcaret : c ≠ '^' := by rintro rfl; exact apart (by decide)
  simp only [printedOperators, List.mem_cons, List.not_mem_nil, or_false] at h
  rcases h with rfl | rfl | rfl | rfl | rfl | rfl | rfl | rfl | rfl | rfl | rfl | rfl | rfl | rfl |
    rfl | rfl | rfl
  · exact ⟨.assignment, rfl, acceptAssignment_colon (by simp [heq, hcolon]) r⟩
  · exact ⟨.assignment, rfl, rfl⟩
  · exact ⟨.orWord, rfl, rfl⟩
  · exact ⟨.andWord, rfl, rfl⟩
  · exact ⟨.relation, rfl, rfl⟩
  · exact ⟨.relation, rfl, rfl⟩
  · exact ⟨.relation, rfl, rfl⟩
  · exact ⟨.relation, rfl, rfl⟩
  · exact ⟨.relation, rfl, rfl⟩
  · exact ⟨.relation, rfl, rfl⟩
  · exact ⟨.addition, rfl, rfl⟩
  · exact ⟨.addition, rfl, rfl⟩
  · exact ⟨.multiplication, rfl, acceptMultiplication_star hstar r⟩
  · exact ⟨.multiplication, rfl, rfl⟩
  · exact ⟨.dot, rfl, rfl⟩
  · refine ⟨.power, rfl, ?_⟩
    change acceptAny _ ('^' :: c :: r) = some (c :: r)
    simp [acceptAny, hcaret.symm]
  · exact ⟨.power, rfl, rfl⟩

theorem isBoundary_operatorText {op : String} (h : op ∈ printedOperators) (u : List Char) :
    IsBoundary (operatorText op ++ u) := by
  have all : ∀ op ∈ printedOperators, (operatorText op).headD 'x' ∈ boundaries := by decide
  have ho := all op h
  cases e : operatorText op with
  | nil => rw [e] at ho; exact absurd ho (by decide)
  | cons c r => rw [e] at ho; exact ho

/-- No tighter rule takes the operator. -/
theorem stops_operator {op : String} (h : op ∈ printedOperators) {u : List Char} (hu : Opens u) :
    Stops (operatorRule op).tighter (operatorText op ++ u) := by
  obtain ⟨c, r, rfl, hc⟩ := hu
  have hstar : c ≠ '*' := by rintro rfl; exact hc.apart.2 (by decide)
  refine ⟨isBoundary_operatorText h _, ?_, ?_⟩
  · intro Q p hQ hp
    rw [skipBlanks_operatorText h]
    simp only [printedOperators, List.mem_cons, List.not_mem_nil, or_false] at h
    rcases h with rfl | rfl | rfl | rfl | rfl | rfl | rfl | rfl | rfl | rfl | rfl | rfl | rfl |
      rfl | rfl | rfl | rfl <;> cases Q <;> cases hp <;>
      first
      | rfl
      | exact absurd hQ (by decide)
      | exact acceptPower_star hstar r
  · intro _ s e
    have all : ∀ op ∈ printedOperators, (operatorText op).headD '!' ≠ '!' := by decide
    have ho := all op h
    cases ht : operatorText op with
    | nil => rw [ht] at ho; exact ho rfl
    | cons d t =>
      rw [ht] at ho e
      exact ho (List.cons.inj e).1

/-- The place before an operator that groups to the left belongs to its own rule, the place after it
to the tighter one. -/
theorem ruleAt_operands_left {op : String} (h : op ∈ printedOperators)
    (hr : isRightAssociative op = false) :
    ruleAt (leftMinimum op) = operatorRule op ∧
      ruleAt (rightMinimum op) = (operatorRule op).tighter := by
  have all : ∀ op ∈ printedOperators, isRightAssociative op = false →
      ruleAt (leftMinimum op) = operatorRule op ∧
        ruleAt (rightMinimum op) = (operatorRule op).tighter := by decide
  exact all op h hr

theorem ruleAt_operands_right {op : String} (h : op ∈ printedOperators)
    (hr : isRightAssociative op = true) :
    ruleAt (leftMinimum op) = (operatorRule op).tighter ∧
      ruleAt (rightMinimum op) = operatorRule op ∧
      (operatorRule op = .assignment ∨ operatorRule op = .power) := by
  have all : ∀ op ∈ printedOperators, isRightAssociative op = true →
      ruleAt (leftMinimum op) = (operatorRule op).tighter ∧
        ruleAt (rightMinimum op) = operatorRule op ∧
        (operatorRule op = .assignment ∨ operatorRule op = .power) := by decide
  exact all op h hr

/-! ## Prefixes -/

theorem accept_notWord (u : List Char) :
    Pattern.notWord.accept (prefixText "not" ++ u) = some (' ' :: u) := rfl

/-- A sign or a quote is read where it is printed, unless a quote would make two of one. -/
theorem accept_sign {op : String} (h : op ∈ ["-", "+", "'", "''"]) {u : List Char}
    (hq : op = "'" → ∀ r, u ≠ '\'' :: r) :
    Pattern.sign.accept (prefixText op ++ u) = some u := by
  simp only [List.mem_cons, List.not_mem_nil, or_false] at h
  rcases h with rfl | rfl | rfl | rfl
  · rfl
  · rfl
  · cases u with
    | nil => rfl
    | cons c r =>
      have hc : c ≠ '\'' := by
        rintro rfl
        exact hq rfl r rfl
      change acceptAny _ ('\'' :: c :: r) = some (c :: r)
      simp [acceptAny, hc.symm]
  · rfl

end AlgebraBatch.Syntax
