import AlgebraBatch.Proofs.Syntax.Bared
import AlgebraBatch.Proofs.Syntax.Core
import AlgebraBatch.Proofs.Syntax.Nesting
import Mathlib

/-!
# The printed parentheses are needed

A rule reads an operation of a looser rule only in parentheses. So a text that means an expression
has at least as many opening parentheses as the printed text of the expression
(`count_render_le`), and the printed text with a pair of them left out means something else or
nothing (`bared_means_other`). Two forms keep parentheses that they could do without: a conditional,
whose branches are printed in parentheses if they are conditionals, and a power whose exponent has a
sign.
-/

namespace AlgebraBatch.Expr

def isPrefixed : Expr → Bool
  | prefixed _ _ => true
  | _ => false

/-- The node is no conditional, and no power whose exponent is a sign's operation. -/
def isFrugal : Expr → Bool
  | conditional _ _ => false
  | operation op _ r => !(["^", "^^"].contains op && r.isPrefixed)
  | _ => true

/-- An expression that a text may mean, of nodes that are printed without spare parentheses. -/
def Frugal (e : Expr) : Prop :=
  Everywhere (fun d => (HasShape IsReadName d ∧ d.isNegativeInteger = false) ∧ d.isFrugal = true) e

theorem Frugal.of_readable {e : Expr} (h : Readable e) (hf : Everywhere (isFrugal · = true) e) :
    Frugal e :=
  fun d hd => ⟨h d hd, hf d hd⟩

end AlgebraBatch.Expr

namespace AlgebraBatch.Syntax

open AlgebraBatch.Text Peg AlgebraBatch.Expr AlgebraBatch.Syntax.Tree

variable {s s₁ s₂ s' : List Char} {l r t : Tree} {e : Expr}

/-! ## Counting -/

theorem count_plain {w : List Char} (hw : ∀ c ∈ w, isPlain c = true) : w.count '(' = 0 := by
  refine List.count_eq_zero.2 fun hm => ?_
  cases hw '(' hm

theorem count_lexeme {p : Pattern} {w : List Char} (hp : p ≠ .string) (h : p.IsLexeme w) :
    w.count '(' = 0 := by
  obtain ⟨u, rfl, hu⟩ := plain_of_accept hp h
  rw [List.append_nil]
  exact count_plain hu

theorem count_skipBlanks_le (s : List Char) : (skipBlanks s).count '(' ≤ s.count '(' :=
  (List.dropWhile_sublist _).count_le _

theorem count_accept_le {p : Pattern} (h : p.accept s = some s') : s'.count '(' ≤ s.count '(' :=
  (Pattern.accept_suffix h).1.sublist.count_le _

theorem count_escape (cs : List Char) : (Literal.escape cs).count '(' = cs.count '(' := by
  induction cs with
  | nil => rfl
  | cons c cs ih =>
    rw [Literal.escape]
    split <;> simp [List.count_cons, ih]

theorem count_operand (m : Nat) (e : Expr) :
    (operand m e).count '(' = (render e).count '(' + if precedence e < m then 1 else 0 := by
  unfold operand bracket
  by_cases h : precedence e < m
  · simp [h, List.count_append]
  · simp [h]

theorem count_operand_mono {m m' : Nat} (h : m ≤ m') (e : Expr) :
    (operand m e).count '(' ≤ (operand m' e).count '(' := by
  rw [count_operand, count_operand]
  split <;> split <;> omega

theorem count_render_le_operand (m : Nat) (e : Expr) :
    (render e).count '(' ≤ (operand m e).count '(' := by
  rw [count_operand]
  omega

theorem count_operand_of_le {m : Nat} (h : m ≤ precedence e) :
    (operand m e).count '(' = (render e).count '(' := by
  rw [count_operand, if_neg (Nat.not_lt.2 h), Nat.add_zero]

/-! ## What a rule reads without parentheses -/

/-- The least precedence of what a rule reads without parentheses. An exponent may also have a
sign. -/
def least : Rule → Nat
  | .assignment => 10
  | .disjunction => 20
  | .conjunction => 30
  | .negation => 40
  | .relation => 50
  | .sum => 60
  | .product => 70
  | .signed => 75
  | .dotProduct => 78
  | .exponent => 80
  | .power => 80
  | .factorial => 90
  | .primary => 91

theorem least_le_tighter (R : Rule) : least R ≤ least R.tighter := by
  cases R <;> decide

/-- What is read as the expression has the parentheses that are printed for it at such a place. -/
def Covers (R : Rule) (s : List Char) (t : Tree) (s' : List Char) : Prop :=
  ∀ ⦃e⦄, t.expr.equal e = true → Frugal e → (R = .exponent → e.isPrefixed = false) →
    (operand (least R) e).count '(' + s'.count '(' ≤ s.count '('

/-- The rules, where what they read is covered. -/
abbrev CoveredBy : RuleReading := fun R s t s' => ReadsAs R s t s' ∧ Covers R s t s'

theorem Covers.of_tighter {R : Rule} (h : Covers R.tighter s t s') (hR : R ≠ .exponent) :
    Covers R s t s' := by
  intro e heq he _
  have hne : R.tighter ≠ .exponent := by cases R <;> nofun
  have := h heq he fun hx => absurd hx hne
  have := count_operand_mono (least_le_tighter R) e
  omega

/-- A whole expression, whatever its precedence is. -/
theorem Covers.whole (h : Covers .assignment s t s') (heq : t.expr.equal e = true)
    (he : Frugal e) : (render e).count '(' + s'.count '(' ≤ s.count '(' := by
  have := h heq he nofun
  have := count_render_le_operand (least .assignment) e
  omega

/-! ## Operations -/

/-- An operator of a rule `R` is printed without parentheses, and operands that `L` and `C` read
without parentheses stand beside it without them. -/
@[mk_iff]
structure PrintsBy (R L C : Rule) (w : String) : Prop where
  level : binaryPrecedence (operatorName w) = least R
  left : leftMinimum (operatorName w) ≤ least L
  right : rightMinimum (operatorName w) ≤ least C
  plain : (operatorText (operatorName w)).count '(' = 0
  power : C = .exponent → operatorName w ∈ ["^", "^^"]

instance {R L C : Rule} {w : String} : Decidable (PrintsBy R L C w) :=
  decidable_of_iff _ (printsBy_iff R L C w).symm

theorem covers_binary {R L C : Rule} {p : Pattern} (hp : R.operator? = some p)
    (hw : ∀ w ∈ p.spellings, PrintsBy R L C w) (hL : L ≠ .exponent) (hl : Covers L s l s₁)
    (ho : p.accept (skipBlanks s₁) = some s₂) (hr : Covers C (skipBlanks s₂) r s') :
    Covers R s (.binary (.between (skipBlanks s₁) s₂) l r) s' := by
  intro e heq he _
  obtain ⟨hne, -⟩ := operator_spelling hp
  obtain ⟨w, hmem, hspell⟩ := accept_spelling hne ho
  rw [Tree.expr, text_between hspell] at heq
  obtain ⟨a, b, rfl, heql, heqr⟩ := equal_operation heq
  obtain ⟨⟨-, hfrugal⟩, ha, hb⟩ := everywhere_operation.1 he
  obtain ⟨hlevel, hleft, hright, hplain, hpower⟩ := hw w hmem
  have hexponent : C = .exponent → b.isPrefixed = false := by
    intro hC
    have := List.contains_iff_mem.2 (hpower hC)
    simpa only [isFrugal, this, Bool.true_and, Bool.not_eq_true'] using hfrugal
  have h₁ := hl heql ha fun hx => absurd hx hL
  have h₂ := hr heqr hb hexponent
  have h₃ := count_operand_mono hleft a
  have h₄ := count_operand_mono hright b
  have h₅ := count_skipBlanks_le s₁
  have h₆ := count_skipBlanks_le s₂
  have h₇ := count_accept_le ho
  have h₈ : (render (.operation (operatorName w) a b)).count '(' =
      (operand (leftMinimum (operatorName w)) a).count '(' +
        (operand (rightMinimum (operatorName w)) b).count '(' := by
    rw [render, List.count_append, List.count_append, hplain, Nat.add_zero]
  rw [count_operand_of_le (show least R ≤ binaryPrecedence _ from hlevel.ge)]
  omega

theorem covers_chain {R : Rule} {p : Pattern} (hR : R.isChain = true) (hp : R.operator? = some p)
    (h : Chain CoveredBy p R.tighter s t s') : Covers R s t s' := by
  have hne : R ≠ .exponent := by rintro rfl; cases hR
  have hw : ∀ w ∈ p.spellings, PrintsBy R R R.tighter w := by
    cases R <;> cases hR <;> cases hp <;> decide
  induction h with
  | one h => exact h.2.of_tighter hne
  | more _ ho hr ih => exact covers_binary hp hw hne ih ho hr.2

theorem covers_rightChain {R C : Rule} {p : Pattern}
    (hR : R = .assignment ∧ C = .assignment ∨ R = .power ∧ C = .exponent)
    (hp : R.operator? = some p)
    (h : Derives grammar CoveredBy (Reads.rightChain p R.tighter C) s t s') : Covers R s t s' := by
  have hw : ∀ w ∈ p.spellings, PrintsBy R R.tighter C w := by
    rcases hR with ⟨rfl, rfl⟩ | ⟨rfl, rfl⟩ <;> cases hp <;> decide
  have hne : R ≠ .exponent ∧ R.tighter ≠ .exponent := by
    rcases hR with ⟨rfl, -⟩ | ⟨rfl, -⟩ <;> decide
  rcases derives_rightChain.1 h with ⟨h, -⟩ | ⟨l, s₁, s₂, r, hl, ho, hr, rfl⟩
  · exact h.2.of_tighter hne.1
  · exact covers_binary hp hw hne.2 hl.2 ho hr.2

theorem covers_prefixed {R : Rule} {p : Pattern}
    (hp : p = .sign ∧ (R = .signed ∨ R = .exponent) ∨ p = .notWord ∧ R = .negation)
    (h : Derives grammar CoveredBy (Reads.prefixed p R) s t s') : Covers R s t s' := by
  intro e heq he hx
  have hspellings : p.spellings ≠ [] ∧ ∀ w ∈ p.spellings, R ≠ .exponent →
      prefixPrecedence w = least R ∧ (prefixText w).count '(' = 0 := by
    rcases hp with ⟨rfl, rfl | rfl⟩ | ⟨rfl, rfl⟩ <;> decide
  obtain ⟨s₁, u, ho, hu, rfl⟩ := derives_prefixed.1 h
  obtain ⟨w, hw, hspell⟩ := accept_spelling hspellings.1 ho
  rw [Tree.expr, text_between hspell] at heq
  obtain ⟨d, rfl, heqd⟩ := equal_prefixed heq
  have hR : R ≠ .exponent := fun hR => Bool.noConfusion (hx hR)
  obtain ⟨hlevel, hplain⟩ := hspellings.2 w hw hR
  have h₁ := hu.2 heqd (everywhere_prefixed.1 he).2 fun hx => absurd hx hR
  have h₂ := count_skipBlanks_le s₁
  have h₃ := count_accept_le ho
  have h₄ : (render (.prefixed w d)).count '(' = (operand (least R) d).count '(' := by
    rw [render, hlevel, List.count_append, hplain, Nat.zero_add]
  rw [count_operand_of_le (show least R ≤ prefixPrecedence w from hlevel.ge)]
  omega

theorem covers_factorial (h : Derives grammar CoveredBy Reads.factorial s t s') :
    Covers .factorial s t s' := by
  rcases derives_factorial.1 h with ⟨hu, -⟩ | ⟨u, hu, rfl⟩
  · exact Covers.of_tighter (R := .factorial) hu.2 nofun
  · intro e heq he _
    obtain ⟨d, rfl, heqd⟩ := equal_postfixed heq
    have h₁ := hu.2 heqd (everywhere_postfixed.1 he).2 nofun
    have h₂ : (render (.postfixed "!" d)).count '(' = (operand (least .primary) d).count '(' := by
      rw [render, List.count_append]
      rfl
    rw [List.count_cons_of_ne (by decide)] at h₁
    rw [count_operand_of_le (show least .factorial ≤ postfixPrecedence by decide)]
    omega

/-! ## Atoms -/

/-- What is printed without parentheses of its own at every place. -/
theorem covers_of_precedence {R : Rule} (h : ∀ e, t.expr.equal e = true → Frugal e →
    precedence e = atomPrecedence ∧ (render e).count '(' + s'.count '(' ≤ s.count '(') :
    Covers R s t s' := by
  intro e heq he _
  obtain ⟨hp, hc⟩ := h e heq he
  have hle : least R ≤ precedence e := by
    rw [hp]
    cases R <;> decide
  rw [count_operand_of_le hle]
  exact hc

theorem covers_atom {k : AtomKind} {p : Pattern} (hk : k ≠ .string) (h : p.accept s = some s') :
    Covers .primary s (.atom k (.between s s')) s' := by
  have hs := count_accept_le h
  refine covers_of_precedence fun e heq he => ?_
  suffices precedence e = atomPrecedence ∧ (render e).count '(' = 0 by
    refine ⟨this.1, ?_⟩
    rw [this.2, Nat.zero_add]
    exact hs
  cases k with
  | integer =>
    obtain rfl := equal_integer heq
    obtain ⟨⟨-, hn⟩, -⟩ := everywhere_integer.1 he
    refine ⟨precedence_integer hn, ?_⟩
    rw [render_integer hn]
    exact count_plain fun c hc => isPlain_of (by decide) (isDecimalDigit_of_mem_toDigits hc)
  | float =>
    obtain ⟨x, text, rfl⟩ := equal_float heq
    obtain ⟨⟨hl, -⟩, -⟩ := everywhere_float.1 he
    exact ⟨precedence_float hl, count_lexeme (p := .float) nofun hl.1⟩
  | boolean =>
    obtain rfl := equal_boolean heq
    have all : ∀ b, (render (.boolean b)).count '(' = 0 := by decide
    exact ⟨rfl, all _⟩
  | identifier =>
    obtain rfl := equal_identifier heq
    obtain ⟨⟨hn, -⟩, -⟩ := everywhere_identifier.1 he
    exact ⟨rfl, count_lexeme (p := .identifier) nofun hn.1⟩
  | string => exact absurd rfl hk

theorem unescape_sublist (cs : List Char) : (Literal.unescape cs).Sublist cs := by
  induction cs using Literal.unescape.induct with
  | case1 c cs ih => exact (ih.cons_cons c).cons _
  | case2 c cs h ih =>
    rw [Literal.unescape]
    · exact ih.cons_cons c
    · exact h
  | case3 => exact List.nil_sublist _

theorem covers_string (h : Pattern.string.accept s = some s') :
    Covers .primary s (.atom .string (.between s s')) s' := by
  refine covers_of_precedence fun e heq _ => ?_
  obtain rfl := equal_string heq
  obtain ⟨w, rfl⟩ := (Pattern.accept_suffix h).1
  have hsub : (Literal.unquote w).Sublist w :=
    (unescape_sublist _).trans ((List.dropLast_sublist _).trans (List.drop_sublist 1 w))
  have hle := hsub.count_le '('
  refine ⟨rfl, ?_⟩
  rw [text_between_append, render, Literal.quote, List.count_cons_of_ne (by decide),
    List.count_append, count_escape, String.toList_ofList, String.toList_ofList, List.count_append]
  have : ['"'].count '(' = 0 := by decide
  omega

/-! ## Brackets -/

theorem count_renderItems_cons (e : Expr) (es : List Expr) :
    (renderItems [','] (e :: es)).count '(' =
      (render e).count '(' + (renderItems [','] es).count '(' := by
  cases es with
  | nil => rfl
  | cons d ds =>
    rw [renderItems_cons (List.cons_ne_nil d ds), List.count_append, List.count_append]
    rfl

theorem covers_furtherItems {ts : List Tree}
    (h : Repeats (Derives grammar CoveredBy Reads.commaItem) (Refuses grammar Reads.commaItem) s ts
      s') :
    ∀ {es : List Expr}, equalItems (exprItems ts) es = true → (∀ e ∈ es, Frugal e) →
      (renderItems [','] es).count '(' + s'.count '(' ≤ s.count '(' := by
  induction h with
  | nil =>
    intro es heq _
    obtain rfl := equalItems_nil heq
    exact (Nat.zero_add _).le
  | @cons s s₁ _ _ _ hx _ ih =>
    intro es heq he
    obtain ⟨s₂, hcomma, ht⟩ := derives_commaItem.1 hx
    obtain ⟨d, ds, rfl, heqd, heqs⟩ := equalItems_cons heq
    obtain ⟨hd, hds⟩ := List.forall_mem_cons.1 he
    have h₁ := ht.2.whole heqd hd
    have h₂ := ih heqs hds
    have h₃ := count_skipBlanks_le s
    have h₄ := count_skipBlanks_le s₂
    rw [hcomma, List.count_cons_of_ne (by decide)] at h₃
    rw [count_renderItems_cons]
    omega

theorem covers_items {ts : List Tree} {es : List Expr} (h : Items CoveredBy s ts s')
    (heq : equalItems (exprItems ts) es = true) (he : ∀ e ∈ es, Frugal e) :
    (renderItems [','] es).count '(' + s'.count '(' ≤ s.count '(' := by
  cases h with
  | nil =>
    obtain rfl := equalItems_nil heq
    exact (Nat.zero_add _).le
  | cons ht hm =>
    obtain ⟨d, ds, rfl, heqd, heqs⟩ := equalItems_cons heq
    obtain ⟨hd, hds⟩ := List.forall_mem_cons.1 he
    have h₁ := ht.2.whole heqd hd
    have h₂ := covers_furtherItems hm heqs hds
    rw [count_renderItems_cons]
    omega

theorem covers_enclosed {opening closing : Char} {ts : List Tree} {es : List Expr}
    (hc : closing ∈ closings)
    (h : Derives grammar CoveredBy (Reads.enclosed opening closing) s ts s')
    (heq : equalItems (exprItems ts) es = true) (he : ∀ e ∈ es, Frugal e) :
    (opening :: (renderItems [','] es ++ [closing])).count '(' + s'.count '(' ≤ s.count '(' := by
  have hne : closing ≠ '(' := by
    rintro rfl
    exact absurd hc (by decide)
  obtain ⟨s₁, s₂, rfl, hi, hclose⟩ := derives_enclosed.1 h
  have h₁ := covers_items hi heq he
  have h₂ := count_skipBlanks_le s₁
  have h₃ := count_skipBlanks_le s₂
  rw [hclose, List.count_cons_of_ne hne] at h₃
  rw [List.count_cons, List.count_cons, List.count_append, List.count_cons_of_ne hne]
  simp only [List.count_nil]
  omega

/-- A name has no parentheses. -/
theorem count_head {head : Expr} {name : String} (heq : (identifier name).equal head = true)
    (hd : Frugal head) : (render head).count '(' = 0 := by
  obtain rfl := equal_identifier heq
  exact count_lexeme (p := .identifier) nofun (everywhere_identifier.1 hd).1.1.1

theorem covers_group (h : Derives grammar CoveredBy Reads.group s t s') :
    Covers .primary s t s' := by
  intro e heq he _
  obtain ⟨s₁, s₂, rfl, ht, hclose⟩ := derives_group.1 h
  have h₁ := ht.2.whole heq he
  have h₂ := count_skipBlanks_le s₁
  have h₃ := count_skipBlanks_le s₂
  rw [hclose, List.count_cons_of_ne (by decide)] at h₃
  rw [count_operand, List.count_cons_self]
  split <;> omega

theorem covers_primary (h : Derives grammar CoveredBy Reads.primary s t s') :
    Covers .primary s t s' := by
  rcases h with h | ⟨-, h | ⟨-, h | ⟨-, h | ⟨-, h | ⟨-, h | ⟨-, h | ⟨-, h | ⟨-, h | ⟨-, h |
    ⟨-, h⟩⟩⟩⟩⟩⟩⟩⟩⟩⟩
  · obtain ⟨ha, rfl⟩ := derives_atom.1 h
    exact covers_atom nofun ha
  · obtain ⟨ha, rfl⟩ := derives_atom.1 h
    exact covers_atom nofun ha
  · obtain ⟨ha, rfl⟩ := derives_atom.1 h
    exact covers_string ha
  · obtain ⟨ha, rfl⟩ := derives_atom.1 h
    exact covers_atom nofun ha
  · obtain ⟨-, -, -, first, more, otherwise, -, -, -, -, rfl⟩ := derives_conditional.1 h
    intro e heq he _
    obtain ⟨bs, o, rfl, -⟩ := equal_conditional heq
    cases he.self.2
  · obtain ⟨s₁, ts, hi, hts, rfl⟩ := derives_headed.1 h
    refine covers_of_precedence fun e heq he => ?_
    obtain ⟨head, args, rfl, heqh, heqa⟩ := equal_call heq
    obtain ⟨-, hh, ha⟩ := everywhere_call.1 he
    have h₁ := covers_enclosed (by decide) hts heqa ha
    have h₂ := count_accept_le hi
    refine ⟨rfl, ?_⟩
    rw [render, List.count_append, count_head heqh hh]
    omega
  · obtain ⟨s₁, ts, hi, hts, rfl⟩ := derives_headed.1 h
    refine covers_of_precedence fun e heq he => ?_
    obtain ⟨target, indices, rfl, heqt, heqi⟩ := equal_indexed heq
    obtain ⟨-, ht, hix⟩ := everywhere_indexed.1 he
    have h₁ := covers_enclosed (by decide) hts heqi hix
    have h₂ := count_accept_le hi
    refine ⟨rfl, ?_⟩
    rw [render, List.count_append, count_head heqt ht]
    omega
  · obtain ⟨ha, rfl⟩ := derives_atom.1 h
    exact covers_atom nofun ha
  · obtain ⟨ts, hts, rfl⟩ := derives_bracketed.1 h
    refine covers_of_precedence fun e heq he => ?_
    obtain ⟨items, rfl, heqi⟩ := equal_list heq
    exact ⟨rfl, covers_enclosed (by decide) hts heqi (everywhere_list.1 he).2⟩
  · obtain ⟨ts, hts, rfl⟩ := derives_bracketed.1 h
    refine covers_of_precedence fun e heq he => ?_
    obtain ⟨items, rfl, heqi⟩ := equal_set heq
    exact ⟨rfl, covers_enclosed (by decide) hts heqi (everywhere_set.1 he).2⟩
  · exact covers_group h

/-! ## All rules -/

theorem covers_of_reads {R : Rule} (h : ReadsAs R s t s') : Covers R s t s' := by
  refine rule_induction (motive := Covers) ?_ h
  intro R s t s' h
  change Derives grammar CoveredBy (Reads.body R) s t s' at h
  cases R with
  | assignment => exact covers_rightChain (R := .assignment) (.inl ⟨rfl, rfl⟩) rfl h
  | disjunction => exact covers_chain (R := .disjunction) rfl rfl (derives_leftChain.1 h).1
  | conjunction => exact covers_chain (R := .conjunction) rfl rfl (derives_leftChain.1 h).1
  | negation =>
    rcases h with h | ⟨-, h⟩
    · exact covers_prefixed (.inr ⟨rfl, rfl⟩) h
    · exact Covers.of_tighter (R := .negation) h.2 nofun
  | relation => exact covers_chain (R := .relation) rfl rfl (derives_leftChain.1 h).1
  | sum => exact covers_chain (R := .sum) rfl rfl (derives_leftChain.1 h).1
  | product => exact covers_chain (R := .product) rfl rfl (derives_leftChain.1 h).1
  | signed =>
    rcases h with h | ⟨-, h⟩
    · exact covers_prefixed (.inl ⟨rfl, .inl rfl⟩) h
    · exact Covers.of_tighter (R := .signed) h.2 nofun
  | dotProduct => exact covers_chain (R := .dotProduct) rfl rfl (derives_leftChain.1 h).1
  | exponent =>
    rcases h with h | ⟨-, h⟩
    · exact covers_prefixed (.inl ⟨rfl, .inr rfl⟩) h
    · exact fun e heq he _ => h.2 heq he nofun
  | power => exact covers_rightChain (R := .power) (.inr ⟨rfl, rfl⟩) rfl h
  | factorial => exact covers_factorial h
  | primary => exact covers_primary h

/-- Whatever text means the expression, it has the parentheses that are printed. -/
theorem count_render_le {text : String} {e' : Expr} (h : parseExpr text = .ok e')
    (heq : e'.equal e = true) (he : Frugal e) :
    (render e).count '(' ≤ text.toList.count '(' := by
  obtain ⟨t, hy, -, rfl⟩ := parseExpr_eq_ok.1 h
  obtain ⟨s', hr, -⟩ := yields_root.1 hy
  have h₁ := (covers_of_reads hr).whole heq he
  have h₂ := count_skipBlanks_le text.toList
  omega

/-- No pair of printed parentheses can be left out: the text without it is refused, or it means
something else. -/
theorem bared_means_other {text : String} (h : parseExpr text = .ok e)
    (hf : Everywhere (isFrugal · = true) e) {cs : List Char} (hcs : cs ∈ bared e) :
    ∀ e', parseExpr (String.ofList cs) = .ok e' → e'.equal e = false := by
  intro e' h'
  have he : Frugal e := .of_readable (readable_of_parseExpr h) hf
  have hlt := (leavesOut_of_mem_bared e cs hcs).count_lt
  refine Bool.eq_false_iff.2 fun heq => ?_
  have hle := count_render_le h' heq he
  rw [String.toList_ofList] at hle
  omega

/-- The factorial `((a+b)*c)!`. -/
def groupedFactorial : Expr :=
  .postfixed "!"
    (.operation "*" (.operation "+" (.identifier "a") (.identifier "b")) (.identifier "c"))

theorem bared_groupedFactorial :
    bared groupedFactorial = ["(a+b)*c!".toList, "(a+b*c)!".toList] := by
  rfl

set_option maxRecDepth 4000 in
/-- Without the outer parentheses the factorial is that of `c`. -/
theorem bared_means_other_groupedFactorial :
    parseExpr "((a+b)*c)!" = .ok groupedFactorial ∧
      (Expr.operation "*" (.operation "+" (.identifier "a") (.identifier "b"))
        (.postfixed "!" (.identifier "c"))).equal groupedFactorial = false := by
  have h : parseExpr "((a+b)*c)!" = .ok groupedFactorial := by cbv
  have hcs : "(a+b)*c!".toList ∈ bared groupedFactorial := by
    rw [bared_groupedFactorial]
    exact List.mem_cons_self
  exact ⟨h, bared_means_other h (by decide) hcs _ (by cbv)⟩

end AlgebraBatch.Syntax
