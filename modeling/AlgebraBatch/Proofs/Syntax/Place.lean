import AlgebraBatch.Proofs.Syntax.Meaning
import AlgebraBatch.Proofs.Syntax.Opening
import AlgebraBatch.Proofs.Syntax.Site

/-!
# Expressions at their places

`Reproduced e`: where the names of `e` are clear, the rule of `e` reads `e` from its printed text,
up to a further operator of the rule (`Partial`). From this every looser rule reads `e` where no
operator of its own follows, and the rule of a place reads `e` from what is printed there, with the
parentheses that the place asks for.
-/

namespace AlgebraBatch.Syntax

open AlgebraBatch.Text Peg AlgebraBatch.Expr AlgebraBatch.Syntax.Tree

/-! ## What follows -/

/-- The text is empty or begins with what closes or separates. -/
def Closes (s : List Char) : Prop :=
  s = [] ∨ ∃ c r, s = c :: r ∧ c ∈ [')', ']', '\x7d', ',']

theorem Closes.stops {s : List Char} (h : Closes s) (R : Rule) : Stops R s := by
  rcases h with rfl | ⟨c, r, rfl, hc⟩
  · refine ⟨trivial, fun {Q p} _ hp => ?_, nofun⟩
    cases Q <;> cases hp <;> rfl
  · have all : ∀ c ∈ [')', ']', '\x7d', ','], c ∈ boundaries := by decide
    refine ⟨all c hc, fun {Q p} _ hp => ?_, ?_⟩ <;>
      simp only [List.mem_cons, List.not_mem_nil, or_false] at hc
    · rcases hc with rfl | rfl | rfl | rfl <;> cases Q <;> cases hp <;> rfl
    · rcases hc with rfl | rfl | rfl | rfl <;> nofun

theorem Closes.not_word {s : List Char} (h : Closes s) {w : List Char} (hw : w.head? = some 'e') :
    acceptWord w (skipBlanks s) = none := by
  cases w with
  | nil => cases hw
  | cons d w =>
    obtain rfl : d = 'e' := Option.some.inj hw
    rcases h with rfl | ⟨c, r, rfl, hc⟩
    · rfl
    · simp only [List.mem_cons, List.not_mem_nil, or_false] at hc
      rcases hc with rfl | rfl | rfl | rfl <;> rfl

/-- No operator takes the words of a conditional. -/
theorem stops_word {w : List Char} (hw : w ∈ [" then ".toList, " elseif ".toList, " else ".toList])
    (u : List Char) : Stops .assignment (w ++ u) := by
  simp only [List.mem_cons, List.not_mem_nil, or_false] at hw
  refine ⟨?_, fun {Q p} _ hp => ?_, ?_⟩
  · rcases hw with rfl | rfl | rfl <;> exact (by decide : ' ' ∈ boundaries)
  · rcases hw with rfl | rfl | rfl <;> cases Q <;> cases hp <;> rfl
  · rcases hw with rfl | rfl | rfl <;> nofun

/-! ## Reading as far as the operands go -/

namespace Rule

/-- The rules whose operations group to the left. -/
def isChain : Rule → Bool
  | disjunction | conjunction | relation | sum | product | dotProduct => true
  | assignment | negation | signed | exponent | power | factorial | primary => false

/-- The rule after whose text a further operator may follow. -/
def base (R : Rule) : Rule := if R.isChain then R.tighter else R

theorem base_rank_le (R : Rule) : R.base.rank ≤ R.rank := by
  have all : ∀ R ∈ all, R.base.rank ≤ R.rank := by decide
  exact all R R.mem_all

end Rule

/-- What `R` reads, where a further operator of a chain may follow. -/
def Partial (R : Rule) (s : List Char) (t : Tree) (s' : List Char) : Prop :=
  if R.isChain then ∃ p, R.operator? = some p ∧ Chain ReadsAs p R.tighter s t s'
  else ReadsAs R s t s'

variable {s s' : List Char} {t : Tree}

theorem body_chain {R : Rule} {p : Pattern} (hR : R.isChain = true) (hp : R.operator? = some p) :
    Reads.body R = Reads.leftChain p R.tighter := by
  cases R <;> cases hR <;> cases hp <;> rfl

theorem reads_chain {R : Rule} {p : Pattern} (hR : R.isChain = true) (hp : R.operator? = some p)
    (hc : Chain ReadsAs p R.tighter s t s') (hs : Stops R s') : ReadsAs R s t s' := by
  refine yields_rule_iff.2 ?_
  change Derives grammar ReadsAs (Reads.body R) s t s'
  rw [body_chain hR hp]
  exact derives_leftChain.2 ⟨hc, refuses_continued (hs.operators (Nat.le_refl _) hp)⟩

theorem Partial.reads {R : Rule} (h : Partial R s t s') (hs : Stops R s') : ReadsAs R s t s' := by
  unfold Partial at h
  split at h
  · next hR =>
    obtain ⟨p, hp, hc⟩ := h
    exact reads_chain hR hp hc hs
  · exact h

theorem partial_of_reads {R : Rule} (hR : R.isChain = false) (h : ReadsAs R s t s') :
    Partial R s t s' := by
  rw [Partial, hR, if_neg Bool.false_ne_true]
  exact h

/-! ## Expressions at their places -/

/-- What may follow an expression. A conditional reaches as far as it can. -/
structure Ends (e : Expr) (rest : List Char) : Prop where
  stops : Stops (level e).base rest
  closes : precedence e ≤ conditionalPrecedence → Closes rest

/-- The rule of the expression reads the expression, where its names are clear. -/
def Reproduced (e : Expr) : Prop :=
  ∀ leads rest, Ends e rest → (Rule.negation.rank ≤ (level e).rank → leads = true) →
    (∀ σ ∈ sites leads rest e, σ.Clear) →
    ∃ t, t.Means e ∧ Partial (level e) (render e ++ rest) t rest

theorem refuses_notForm_of_ne {c : Char} (h : c ≠ 'n') (r : List Char) :
    Refuses grammar Reads.notForm (c :: r) := by
  refine refuses_prefixed ?_
  change acceptWord ['n', 'o', 't'] (c :: r) = none
  rw [acceptWord, if_neg]
  simp [h.symm]

theorem refuses_notForm_bracket {needed : Bool} {u r : List Char}
    (h : needed = false → Refuses grammar Reads.notForm (u ++ r)) :
    Refuses grammar Reads.notForm (bracket needed u ++ r) := by
  cases needed with
  | false => exact h rfl
  | true => exact refuses_notForm_of_ne (by decide) _

/-- The grammar does not find `not` before an expression that is neither a negation nor looser than
one, if it does not find it in a name. -/
theorem refuses_notForm {e : Expr} (h : Readable e) :
    ∀ {rest : List Char}, (level e).rank < Rule.negation.rank →
      (∀ σ ∈ sites true rest e, σ.Clear) → Refuses grammar Reads.notForm (render e ++ rest) := by
  induction e using Expr.induction with
  | integer n =>
    intro rest _ _
    obtain ⟨c, r, hr, hc⟩ := integer_cons (everywhere_integer.1 h).2
    rw [hr]
    refine refuses_notForm_of_ne ?_ _
    rintro rfl
    exact absurd hc (by decide)
  | float x text =>
    intro rest _ _
    obtain ⟨⟨hl, -⟩, -⟩ := everywhere_float.1 h
    obtain ⟨c, r, ht, hc⟩ := float_cons hl
    rw [render, ht]
    refine refuses_notForm_of_ne ?_ _
    rintro rfl
    exact absurd hc (by decide)
  | string s => exact fun _ _ => refuses_notForm_of_ne (by decide) _
  | boolean b =>
    intro rest _ _
    cases b with
    | false => exact refuses_notForm_of_ne (by decide) _
    | true => exact refuses_notForm_of_ne (by decide) _
  | identifier name => exact fun _ hσ => (hσ _ List.mem_cons_self).notForm rfl
  | operation op l r ihl _ =>
    intro rest hR hσ
    obtain ⟨-, hl, -⟩ := everywhere_operation.1 h
    rw [render, List.append_assoc, List.append_assoc]
    refine refuses_notForm_bracket fun hb => ?_
    have hm : leftMinimum op ≤ precedence l := Nat.not_lt.1 (of_decide_eq_false hb)
    refine ihl hl (Nat.lt_of_le_of_lt (level_operand_rank_le op r hm) hR) fun σ hm => hσ σ ?_
    rw [sites, hb]
    exact List.mem_append_left _ hm
  | prefixed op e _ =>
    intro rest hR _
    obtain ⟨⟨hd, -⟩, -⟩ := everywhere_prefixed.1 h
    rw [level_prefixed] at hR
    rw [render]
    obtain rfl | rfl | rfl | rfl | rfl := prefixOperator_cases hd
    · exact absurd hR (by decide)
    · exact refuses_notForm_of_ne (by decide) _
    · exact refuses_notForm_of_ne (by decide) _
    · exact refuses_notForm_of_ne (by decide) _
    · exact refuses_notForm_of_ne (by decide) _
  | postfixed op e ih =>
    intro rest hR hσ
    obtain ⟨-, he⟩ := everywhere_postfixed.1 h
    rw [render, List.append_assoc]
    refine refuses_notForm_bracket fun hb => ?_
    have hm : postfixPrecedence + 1 ≤ precedence e := Nat.not_lt.1 (of_decide_eq_false hb)
    refine ih he (Nat.lt_of_le_of_lt (level_rank_le hm) (by decide)) fun σ hm => hσ σ ?_
    rw [sites, hb]
    exact hm
  | call head args _ _ =>
    intro rest _ hσ
    obtain ⟨⟨hd, -⟩, -⟩ := everywhere_call.1 h
    obtain ⟨name, rfl⟩ := isIdentifier_eq_true hd
    have hn := (hσ _ (List.mem_append_left _ List.mem_cons_self)).notForm rfl
    simpa [render] using hn
  | indexed target indices _ _ =>
    intro rest _ hσ
    obtain ⟨⟨hd, -⟩, -⟩ := everywhere_indexed.1 h
    obtain ⟨name, rfl⟩ := isIdentifier_eq_true hd
    have hn := (hσ _ (List.mem_append_left _ List.mem_cons_self)).notForm rfl
    simpa [render] using hn
  | conditional branches otherwise _ _ =>
    intro rest _ _
    obtain ⟨⟨hd, -⟩, -⟩ := everywhere_conditional.1 h
    cases branches with
    | nil => exact absurd rfl hd
    | cons b bs => exact refuses_notForm_of_ne (by decide) _
  | list items _ => exact fun _ _ => refuses_notForm_of_ne (by decide) _
  | set items _ => exact fun _ _ => refuses_notForm_of_ne (by decide) _
  | root items _ => exact absurd (Everywhere.self h).1 id

theorem isLoose_of_rank_le {m : Nat} (h : Rule.negation.rank ≤ (ruleAt m).rank) :
    isLoose m = true := by
  refine decide_eq_true (Nat.le_of_not_lt fun hm => ?_)
  have hlt := ruleAt_rank_anti (Nat.succ_le_of_lt hm)
  exact absurd (h.trans hlt) (by decide)

/-- A looser rule reads the expression, if nothing that it would take follows. -/
theorem Reproduced.reads {e : Expr} (h : Reproduced e) (he : Readable e) {leads : Bool}
    {rest : List Char} {R : Rule} (hR : (level e).rank ≤ R.rank) (hs : Stops R rest)
    (hc : precedence e ≤ conditionalPrecedence → Closes rest)
    (hl : Rule.negation.rank ≤ R.rank → leads = true) (hσ : ∀ σ ∈ sites leads rest e, σ.Clear) :
    ∃ t, t.Means e ∧ ReadsAs R (render e ++ rest) t rest := by
  have hends : Ends e rest := ⟨hs.mono ((Rule.base_rank_le _).trans hR), hc⟩
  obtain ⟨t, ht, hp⟩ := h leads rest hends (fun hn => hl (hn.trans hR)) hσ
  refine ⟨t, ht, reads_of_rank_le (level_ne_exponent e) hR (hp.reads (hs.mono hR)) hs ?_ ?_⟩
  · intro hlt hn
    obtain rfl := hl hn
    exact refuses_notForm he hlt hσ
  · exact fun hlt => (begins_render he rest).sign hlt

theorem Reproduced.closed {e : Expr} (h : Reproduced e) (he : Readable e) {rest : List Char}
    (hc : Closes rest) (hσ : ∀ σ ∈ sites true rest e, σ.Clear) :
    ∃ t, t.Means e ∧ ReadsAs .assignment (render e ++ rest) t rest := by
  have hR : (level e).rank ≤ Rule.assignment.rank := by
    have all : ∀ R ∈ Rule.all, R.rank ≤ Rule.assignment.rank := by decide
    exact all _ (Rule.mem_all _)
  exact h.reads he hR (hc.stops _) (fun _ => hc) (fun _ => rfl) hσ

/-- What is printed in parentheses is a primary expression. -/
theorem reads_parenthesized {R : Rule} {u rest : List Char} (hu : Opens u)
    (h : ReadsAs .assignment (u ++ ')' :: rest) t (')' :: rest)) (hs : Stops R rest) :
    ReadsAs R (bracket true u ++ rest) t rest := by
  have hb : skipBlanks (u ++ ')' :: rest) = u ++ ')' :: rest := by
    obtain ⟨c, r, rfl, hc⟩ := hu
    exact (Opens.skipBlanks ⟨c, r ++ ')' :: rest, rfl, hc⟩)
  have hg : ReadsAs .primary ('(' :: (u ++ ')' :: rest)) t rest :=
    reads_group (derives_group.2 ⟨_, ')' :: rest, rfl, by rw [hb]; exact h, rfl⟩)
  have he : bracket true u ++ rest = '(' :: (u ++ ')' :: rest) := by
    rw [bracket, if_pos rfl, List.cons_append, List.append_assoc]
    rfl
  have hne : Rule.primary ≠ .exponent := nofun
  rw [he]
  exact reads_of_rank_le hne (Nat.zero_le _) hg hs
    (fun _ _ => refuses_notForm_of_ne (by decide) _) fun _ => rfl

theorem Reproduced.parenthesized {e : Expr} (h : Reproduced e) (he : Readable e)
    {rest : List Char} {R : Rule} (hs : Stops R rest)
    (hσ : ∀ σ ∈ sites true (')' :: rest) e, σ.Clear) :
    ∃ t, t.Means e ∧ ReadsAs R (bracket true (render e) ++ rest) t rest := by
  have hcl : Closes (')' :: rest) := .inr ⟨')', rest, rfl, by decide⟩
  obtain ⟨t, ht, hr⟩ := h.closed he hcl hσ
  have hopen : Opens (render e) := by
    have := (begins_render he []).opens
    rwa [List.append_nil] at this
  exact ⟨t, ht, reads_parenthesized hopen hr hs⟩

section Place

variable {e : Expr} {m : Nat} {leads : Bool} {rest : List Char} {R : Rule}

/-- The names of an operand are clear, with the parenthesis that closes it. -/
def OperandClear (m : Nat) (leads : Bool) (rest : List Char) (e : Expr) : Prop :=
  ∀ σ ∈ sites (decide (precedence e < m) || leads) (closing (decide (precedence e < m)) ++ rest) e,
    σ.Clear

/-- An operand with the parentheses that its place asks for. -/
abbrev operand (m : Nat) (e : Expr) : List Char :=
  bracket (decide (precedence e < m)) (render e)

/-- The rule of a place reads what is printed there. -/
theorem Reproduced.place (h : Reproduced e) (he : Readable e) (hm : conditionalPrecedence < m)
    (hR : (ruleAt m).rank ≤ R.rank) (hs : Stops R rest)
    (hl : Rule.negation.rank ≤ R.rank → leads = true) (hσ : OperandClear m leads rest e) :
    ∃ t, t.Means e ∧ ReadsAs R (operand m e ++ rest) t rest := by
  unfold OperandClear at hσ
  unfold operand
  cases hb : decide (precedence e < m) with
  | false =>
    rw [hb] at hσ
    have hp : m ≤ precedence e := Nat.not_lt.1 (of_decide_eq_false hb)
    refine h.reads he ((level_rank_le hp).trans hR) hs (fun hc => ?_) hl hσ
    exact absurd hc (Nat.not_le.2 (Nat.lt_of_lt_of_le hm hp))
  | true =>
    rw [hb] at hσ
    exact h.parenthesized he hs hσ

/-- The left operand of a chain is what the chain has read so far. -/
theorem Reproduced.chain (h : Reproduced e) (he : Readable e) (hm : conditionalPrecedence < m)
    {p : Pattern} (hR : R.isChain = true) (hp : R.operator? = some p) (hmR : ruleAt m = R)
    (hs : Stops R.tighter rest) (hl : Rule.negation.rank ≤ R.rank → leads = true)
    (hσ : OperandClear m leads rest e) :
    ∃ t, t.Means e ∧ Chain ReadsAs p R.tighter (operand m e ++ rest) t rest := by
  unfold OperandClear at hσ
  unfold operand
  cases hb : decide (precedence e < m) with
  | false =>
    rw [hb] at hσ
    have hpe : m ≤ precedence e := Nat.not_lt.1 (of_decide_eq_false hb)
    have hc : precedence e ≤ conditionalPrecedence → Closes rest := fun hc =>
      absurd hc (Nat.not_le.2 (Nat.lt_of_lt_of_le hm hpe))
    have hle : (level e).rank ≤ R.rank := hmR ▸ level_rank_le hpe
    by_cases hRe : level e = R
    · have hbase : (level e).base = R.tighter := by rw [hRe, Rule.base, if_pos hR]
      obtain ⟨t, ht, hpart⟩ := h leads rest ⟨hbase ▸ hs, hc⟩ (fun hn => hl (hn.trans hle)) hσ
      rw [hRe, Partial, if_pos hR] at hpart
      obtain ⟨q, hq, hchain⟩ := hpart
      cases hp.symm.trans hq
      exact ⟨t, ht, hchain⟩
    · have hlt := Rule.rank_le_tighter (level_ne_exponent e) hle hRe
      have hRle : R.tighter.rank ≤ R.rank := by
        have all : ∀ R ∈ Rule.all, R.tighter.rank ≤ R.rank := by decide
        exact all R R.mem_all
      obtain ⟨t, ht, hr⟩ := h.reads he hlt hs hc (fun hn => hl (hn.trans hRle)) hσ
      exact ⟨t, ht, .one hr⟩
  | true =>
    rw [hb] at hσ
    obtain ⟨t, ht, hr⟩ := h.parenthesized he hs hσ
    exact ⟨t, ht, .one hr⟩

end Place

end AlgebraBatch.Syntax
