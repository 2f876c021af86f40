import AlgebraBatch.Proofs.Expr.Equal
import AlgebraBatch.Proofs.Syntax.Accepted
import AlgebraBatch.Proofs.Syntax.Place

/-!
# Texts without their padding

Blanks and parentheses leave nothing in a tree. `core` is a text without those at its beginning, so
the core of what is printed for an operand does not depend on the place of the operand.

What a rule reads is of its own level or of a tighter one, if it does not begin with a parenthesis
(`leveled_of_reads`); so an operand that is printed in parentheses stands in parentheses also in a
text that means it.
-/

namespace AlgebraBatch.Syntax

open AlgebraBatch.Text Peg AlgebraBatch.Expr AlgebraBatch.Syntax.Tree

variable {s s₁ s₂ s' : List Char} {l r t : Tree} {e : Expr}

/-! ## Padding -/

def isPadding (c : Char) : Bool := isPatternBlank c || c == '(' || c == ')'

/-- The text without the blanks and the parentheses at its beginning. -/
def core (s : List Char) : List Char := s.dropWhile isPadding

/-- The text begins with what leaves something in a tree. -/
def IsSolid : List Char → Prop
  | [] => False
  | c :: _ => isPadding c = false

instance : DecidablePred IsSolid
  | [] => .isFalse id
  | _ :: _ => inferInstanceAs (Decidable (_ = _))

theorem IsSolid.append {u : List Char} (h : IsSolid u) (r : List Char) : IsSolid (u ++ r) := by
  cases u with
  | nil => exact absurd h id
  | cons c u => exact h

theorem IsSolid.core {u : List Char} (h : IsSolid u) : core u = u := by
  cases u with
  | nil => rfl
  | cons c u => exact List.dropWhile_cons_of_neg (ne_true_of_eq_false h)

theorem core_cons {c : Char} (h : isPadding c = true) (s : List Char) : core (c :: s) = core s :=
  List.dropWhile_cons_of_pos h

theorem core_skipBlanks (s : List Char) : core (skipBlanks s) = core s := by
  induction s with
  | nil => rfl
  | cons c s ih =>
    cases hc : isPatternBlank c with
    | true =>
      rw [skipBlanks, List.dropWhile_cons_of_pos hc, core_cons (by rw [isPadding, hc]; rfl)]
      exact ih
    | false => rw [skipBlanks, List.dropWhile_cons_of_neg (ne_true_of_eq_false hc)]

theorem core_of_cons {c : Char} {r : List Char} (h : core (c :: s) = core (c :: r)) :
    core s = core r := by
  cases hc : isPadding c with
  | true => rwa [core_cons hc, core_cons hc] at h
  | false =>
    rw [IsSolid.core (u := c :: s) hc, IsSolid.core (u := c :: r) hc] at h
    rw [(List.cons.inj h).2]

theorem core_closing (needed : Bool) (r : List Char) : core (closing needed ++ r) = core r := by
  cases needed with
  | false => rfl
  | true => exact core_cons rfl r

/-- The parentheses around an operand stand before it and after it. -/
theorem core_bracket (needed : Bool) (u r : List Char) :
    core (bracket needed u ++ r) = core (u ++ (closing needed ++ r)) := by
  cases needed with
  | false => rfl
  | true =>
    rw [bracket, if_pos rfl, List.cons_append, List.append_assoc]
    exact core_cons rfl _

/-- A text is told by its core, where it is solid. -/
theorem eq_of_core {u : List Char} (h : core s = core u) (hs : IsSolid s) (hu : IsSolid u) :
    s = u := by
  rwa [hs.core, hu.core] at h

/-- A text that goes on with `w` after blanks. -/
theorem core_of_skipBlanks {w : List Char} (h : skipBlanks s = w ++ s') (hw : IsSolid w) :
    core s = w ++ s' := by
  rw [← core_skipBlanks, h, (hw.append s').core]

theorem IsOpening.isSolid {c : Char} (h : IsOpening c) (hne : c ≠ '(') (r : List Char) :
    IsSolid (c :: r) := by
  have hclose : c ≠ ')' := by
    rintro rfl
    exact h.apart.2 (by decide)
  change isPadding c = false
  rw [isPadding, h.apart.1, beq_false_of_ne hne, beq_false_of_ne hclose]
  rfl

theorem isSolid_digit {c : Char} (h : isDecimalDigit c = true) (r : List Char) :
    IsSolid (c :: r) := by
  have hc : IsOpening c := .inr (.inl h)
  refine hc.isSolid ?_ r
  rintro rfl
  exact absurd h (by decide)

theorem isSolid_float {u : List Char} (h : Pattern.float.IsLexeme u) : IsSolid u := by
  obtain ⟨c, r, rfl, hc | rfl⟩ := float_cons h
  · exact isSolid_digit hc r
  · exact (by decide : isPadding '.' = false)

theorem isSolid_name {u : List Char} (h : Pattern.identifier.IsLexeme u) : IsSolid u := by
  obtain ⟨c, r, rfl, hc, -⟩ := identifier_cons h
  have ho : IsOpening c := .inl hc
  refine ho.isSolid ?_ r
  rintro rfl
  exact absurd hc (by decide)

theorem isSolid_spelling {p : Pattern} : ∀ w ∈ p.spellings, IsSolid w.toList := by
  cases p <;> decide

/-! ## Levels -/

def isConditional : Expr → Bool
  | .conditional _ _ => true
  | _ => false

/-- The precedences of what is no conditional. -/
def precedences : List Nat := [10, 20, 30, 40, 50, 60, 70, 75, 78, 80, 90, 100]

theorem precedence_mem (h : Readable e) (hc : isConditional e = false) :
    precedence e ∈ precedences := by
  cases e with
  | integer n =>
    rw [precedence_integer (everywhere_integer.1 h).2]
    decide
  | float x text =>
    rw [precedence_float (everywhere_float.1 h).1]
    decide
  | operation op l r =>
    obtain ⟨⟨⟨ho, -⟩, -⟩, -⟩ := everywhere_operation.1 h
    have all : ∀ op ∈ binaryOperators.map Prod.fst, binaryPrecedence op ∈ precedences := by decide
    exact all op ho
  | prefixed op d =>
    obtain ⟨⟨ho, -⟩, -⟩ := everywhere_prefixed.1 h
    have all : ∀ op ∈ prefixOperators.map Prod.fst, prefixPrecedence op ∈ precedences := by decide
    exact all op ho
  | conditional bs o => cases hc
  | postfixed op d => exact (by decide : postfixPrecedence ∈ precedences)
  | _ => exact (by decide : atomPrecedence ∈ precedences)

/-- The least precedences of the operands that an expression may begin with. -/
def firstMinimums : List Nat := (postfixPrecedence + 1) :: printedOperators.map leftMinimum

/-- What is read at a place needs no parentheses there, unless it is a conditional. -/
theorem le_precedence (h : Readable e) (hc : isConditional e = false) {m : Nat}
    (hm : m ∈ firstMinimums) (hle : (level e).rank ≤ (ruleAt m).rank) : m ≤ precedence e := by
  have hlevel : level e = ruleAt (precedence e) := by
    cases e with
    | conditional bs o => cases hc
    | _ => rfl
  have all : ∀ m ∈ firstMinimums, ∀ p ∈ precedences, (ruleAt p).rank ≤ (ruleAt m).rank →
      m ≤ p := by decide
  rw [hlevel] at hle
  exact all m hm _ (precedence_mem h hc) hle

/-- What is read is of the level of the rule or of a tighter one, or a parenthesis begins it. -/
def Leveled (R : Rule) (s : List Char) (t : Tree) : Prop :=
  ∀ e, t.expr.equal e = true → Readable e → (level e).rank ≤ R.rank ∨ ∃ r, s = '(' :: r

theorem Leveled.mono {Q R : Rule} (h : Leveled Q s t) (hQ : Q.rank ≤ R.rank) : Leveled R s t :=
  fun e heq he => (h e heq he).imp_left fun hl => hl.trans hQ

theorem Leveled.of_level {R : Rule}
    (h : ∀ e, t.expr.equal e = true → Readable e → level e = R) : Leveled R s t :=
  fun e heq he => .inl (h e heq he ▸ Nat.le_refl _)

/-- An operator is read by its own rule. -/
theorem operatorRule_of_spelling {R : Rule} {p : Pattern} (hp : R.operator? = some p) :
    p.spellings ≠ [] ∧ ∀ w ∈ p.spellings, operatorRule (operatorName w) = R := by
  cases R <;> cases hp <;> decide

theorem leveled_binary {R : Rule} {p : Pattern} (hp : R.operator? = some p)
    (h : p.accept (skipBlanks s₁) = some s₂) :
    Leveled R s (.binary (.between (skipBlanks s₁) s₂) l r) := by
  refine .of_level fun e heq _ => ?_
  obtain ⟨hne, hrule⟩ := operatorRule_of_spelling hp
  obtain ⟨w, hw, hs⟩ := accept_spelling hne h
  rw [Tree.expr, text_between hs] at heq
  obtain ⟨l', r', rfl, -⟩ := equal_operation heq
  exact hrule w hw

theorem leveled_unary {R : Rule} {p : Pattern}
    (hp : p = .sign ∧ R = .signed ∨ p = .notWord ∧ R = .negation) (h : p.accept s = some s₁) :
    Leveled R s (.unary (.between s s') (.between s s₁) t) := by
  refine .of_level fun e heq _ => ?_
  have hspellings : p.spellings ≠ [] ∧ ∀ w ∈ p.spellings, ruleAt (prefixPrecedence w) = R := by
    rcases hp with ⟨rfl, rfl⟩ | ⟨rfl, rfl⟩ <;> decide
  obtain ⟨w, hw, hs⟩ := accept_spelling hspellings.1 h
  rw [Tree.expr, text_between hs] at heq
  obtain ⟨d, rfl, -⟩ := equal_prefixed heq
  exact hspellings.2 w hw

theorem leveled_chain {R : Rule} {p : Pattern} (hp : R.operator? = some p)
    (ih : ∀ {s t s'}, ReadsAs R.tighter s t s' → Leveled R s t)
    (h : Chain ReadsAs p R.tighter s t s') : Leveled R s t := by
  cases h with
  | one h => exact ih h
  | more _ ho _ => exact leveled_binary hp ho

theorem leveled_rightChain {R C : Rule} {p : Pattern} (hp : R.operator? = some p)
    (ih : ∀ {s t s'}, ReadsAs R.tighter s t s' → Leveled R s t)
    (h : Derives grammar ReadsAs (Reads.rightChain p R.tighter C) s t s') : Leveled R s t := by
  rcases derives_rightChain.1 h with ⟨h, -⟩ | ⟨l, s₁, s₂, r, -, ho, -, rfl⟩
  · exact ih h
  · exact leveled_binary hp ho

theorem leveled_atom {k : AtomKind} {p : Piece} : Leveled .primary s (.atom k p) := by
  refine .of_level fun e heq he => ?_
  cases k with
  | integer =>
    obtain rfl := equal_integer heq
    exact level_of_atom (precedence_integer (everywhere_integer.1 he).2)
  | float =>
    obtain ⟨x, text, rfl⟩ := equal_float heq
    exact level_of_atom (precedence_float (everywhere_float.1 he).1)
  | string =>
    obtain rfl := equal_string heq
    rfl
  | boolean =>
    obtain rfl := equal_boolean heq
    rfl
  | identifier =>
    obtain rfl := equal_identifier heq
    rfl

theorem leveled_primary (h : Derives grammar ReadsAs Reads.primary s t s') :
    Leveled .primary s t := by
  rcases h with h | ⟨-, h | ⟨-, h | ⟨-, h | ⟨-, h | ⟨-, h | ⟨-, h | ⟨-, h | ⟨-, h | ⟨-, h |
    ⟨-, h⟩⟩⟩⟩⟩⟩⟩⟩⟩⟩
  · obtain ⟨-, rfl⟩ := derives_atom.1 h
    exact leveled_atom
  · obtain ⟨-, rfl⟩ := derives_atom.1 h
    exact leveled_atom
  · obtain ⟨-, rfl⟩ := derives_atom.1 h
    exact leveled_atom
  · obtain ⟨-, rfl⟩ := derives_atom.1 h
    exact leveled_atom
  · obtain ⟨-, -, -, first, more, otherwise, -, -, -, -, rfl⟩ := derives_conditional.1 h
    refine .of_level fun e heq _ => ?_
    obtain ⟨bs, o, rfl, -⟩ := equal_conditional heq
    rfl
  · obtain ⟨-, ts, -, -, rfl⟩ := derives_headed.1 h
    refine .of_level fun e heq _ => ?_
    obtain ⟨head, args, rfl, -⟩ := equal_call heq
    rfl
  · obtain ⟨-, ts, -, -, rfl⟩ := derives_headed.1 h
    refine .of_level fun e heq _ => ?_
    obtain ⟨target, indices, rfl, -⟩ := equal_indexed heq
    rfl
  · obtain ⟨-, rfl⟩ := derives_atom.1 h
    exact leveled_atom
  · obtain ⟨ts, -, rfl⟩ := derives_bracketed.1 h
    refine .of_level fun e heq _ => ?_
    obtain ⟨items, rfl, -⟩ := equal_list heq
    rfl
  · obtain ⟨ts, -, rfl⟩ := derives_bracketed.1 h
    refine .of_level fun e heq _ => ?_
    obtain ⟨items, rfl, -⟩ := equal_set heq
    rfl
  · obtain ⟨s₁, -, rfl, -, -⟩ := derives_group.1 h
    exact fun _ _ _ => .inr ⟨s₁, rfl⟩

/-- Only an exponent may be a sign's operation though its rule is tighter than the signs. -/
theorem leveled_of_reads {R : Rule} (hR : R ≠ .exponent) :
    ∀ {s t s'}, ReadsAs R s t s' → Leveled R s t := by
  intro s t s' h
  have hbody := yields_rule_iff.1 h
  change Derives grammar ReadsAs (Reads.body R) s t s' at hbody
  by_cases hne : R = .primary
  · subst hne
    exact leveled_primary hbody
  · have hlt := Rule.tighter_rank_lt hne
    have ht : R.tighter ≠ .exponent := by cases R <;> nofun
    have ih {s t s'} (h : ReadsAs R.tighter s t s') : Leveled R s t :=
      (leveled_of_reads ht h).mono hlt.le
    cases R with
    | assignment => exact leveled_rightChain (R := .assignment) rfl ih hbody
    | disjunction => exact leveled_chain (R := .disjunction) rfl ih (derives_leftChain.1 hbody).1
    | conjunction => exact leveled_chain (R := .conjunction) rfl ih (derives_leftChain.1 hbody).1
    | negation =>
      rcases hbody with h | ⟨-, h⟩
      · obtain ⟨s₁, u, ho, -, rfl⟩ := derives_prefixed.1 h
        exact leveled_unary (.inr ⟨rfl, rfl⟩) ho
      · exact ih h
    | relation => exact leveled_chain (R := .relation) rfl ih (derives_leftChain.1 hbody).1
    | sum => exact leveled_chain (R := .sum) rfl ih (derives_leftChain.1 hbody).1
    | product => exact leveled_chain (R := .product) rfl ih (derives_leftChain.1 hbody).1
    | signed =>
      rcases hbody with h | ⟨-, h⟩
      · obtain ⟨s₁, u, ho, -, rfl⟩ := derives_prefixed.1 h
        exact leveled_unary (.inl ⟨rfl, rfl⟩) ho
      · exact ih h
    | dotProduct => exact leveled_chain (R := .dotProduct) rfl ih (derives_leftChain.1 hbody).1
    | exponent => exact absurd rfl hR
    | power => exact leveled_rightChain (R := .power) rfl ih hbody
    | factorial =>
      rcases derives_factorial.1 hbody with ⟨h, -⟩ | ⟨u, -, rfl⟩
      · exact ih h
      · refine .of_level fun e heq _ => ?_
        obtain ⟨d, rfl, -⟩ := equal_postfixed heq
        rfl
    | primary => exact absurd rfl hne
termination_by R.rank

end AlgebraBatch.Syntax
