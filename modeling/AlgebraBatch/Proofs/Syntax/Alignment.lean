import AlgebraBatch.Proofs.Syntax.Core
import AlgebraBatch.Proofs.Syntax.Printed

/-!
# What is read back is legible

A text with the core of a printed expression that is read as this expression has the tokens of the
printed one, each followed by what is printed after it (`Aligned`). So wherever a name is printed a
name was read, and neither a conditional nor `not` was found there; and no quote was printed
directly before a quote, since the two are read as one operator.
-/

namespace AlgebraBatch.Syntax

open AlgebraBatch.Text Peg AlgebraBatch.Expr AlgebraBatch.Syntax.Tree

variable {s s₁ s₂ s' rest : List Char} {l r t : Tree} {e : Expr} {leads : Bool}

/-- What is printed of an expression is read as it was meant, before `rest`. -/
structure LegibleBefore (leads : Bool) (rest : List Char) (e : Expr) : Prop where
  quotes : Everywhere (fun d => d.stacksQuotes = false) e
  names : ∀ σ ∈ sites leads rest e, σ.Clear

/-- Where the grammar looks for `not`, the rule does so too, or none has been found there. -/
def Led (leads : Bool) (R : Rule) (s : List Char) : Prop :=
  leads = true → Rule.negation.rank ≤ R.rank ∨ Refuses grammar Reads.notForm s

/-- What is read as a printed expression ends where the printed one does, if it began there. -/
def Aligned (R : Rule) (s : List Char) (t : Tree) (s' : List Char) : Prop :=
  ∀ ⦃e leads rest⦄, t.expr.equal e = true → Readable e → IsBoundary rest →
    core s = core (render e ++ rest) → Led leads R s →
    core s' = core rest ∧ LegibleBefore leads rest e

/-- The rules, where what they read is aligned. -/
abbrev AlignedBy : RuleReading := fun R s t s' => ReadsAs R s t s' ∧ Aligned R s t s'

theorem Led.tighter {R : Rule} (h : Led leads R s) (hR : R ≠ .negation) :
    Led leads R.tighter s := by
  have all : ∀ R ∈ Rule.all, R ≠ .negation → Rule.negation.rank ≤ R.rank →
      Rule.negation.rank ≤ R.tighter.rank := by decide
  exact fun hl => (h hl).imp_left (all R R.mem_all hR)

theorem Aligned.of_tighter {R : Rule} (h : Aligned R.tighter s t s') (hR : R ≠ .negation) :
    Aligned R s t s' :=
  fun _ _ _ heq he hb hc hled => h heq he hb hc (hled.tighter hR)

theorem IsBoundary.closing {needed : Bool} (h : IsBoundary s) :
    IsBoundary (closing needed ++ s) := by
  cases needed with
  | false => exact h
  | true => exact (by decide : ')' ∈ boundaries)

/-! ## Places -/

section Place

variable {R : Rule} {m : Nat}

/-- An operand that an expression begins with. If it is printed in parentheses, it was read in
parentheses. -/
theorem Aligned.first (h : Aligned R s t s') (hlevel : Leveled R s t) (hm : m ∈ firstMinimums)
    (hR : R.rank ≤ (ruleAt m).rank) (heq : t.expr.equal e = true) (he : Readable e)
    (hb : IsBoundary rest) (hcore : core s = core (operand m e ++ rest)) (hled : Led leads R s) :
    core s' = core rest ∧ LegibleBefore (decide (precedence e < m) || leads)
      (closing (decide (precedence e < m)) ++ rest) e := by
  rw [operand, core_bracket] at hcore
  by_cases hc : isConditional e = true
  · -- The names of a conditional stand inside it, so it does not matter what leads there.
    obtain ⟨hs, hl⟩ := h heq he hb.closing hcore hled
    refine ⟨hs.trans (core_closing _ _), hl.quotes, ?_⟩
    cases e with
    | conditional bs o => exact hl.names
    | _ => cases hc
  · have hled' : Led (decide (precedence e < m) || leads) R s := by
      intro hor
      rcases (Bool.or_eq_true _ _).mp hor with hin | hl
      · rcases hlevel e heq he with hle | ⟨r, rfl⟩
        · have hp := le_precedence he (Bool.not_eq_true _ ▸ hc) hm (hle.trans hR)
          exact absurd (of_decide_eq_true hin) (Nat.not_lt.2 hp)
        · exact .inr (refuses_notForm_of_ne (by decide) r)
      · exact hled hl
    obtain ⟨hs, hl⟩ := h heq he hb.closing hcore hled'
    exact ⟨hs.trans (core_closing _ _), hl⟩

/-- An operand that is read right where it is printed. -/
theorem Aligned.exact (h : Aligned R s t s')
    (hm : isLoose m = true → Rule.negation.rank ≤ R.rank) (heq : t.expr.equal e = true)
    (he : Readable e) (hb : IsBoundary rest) (hs : s = operand m e ++ rest) :
    core s' = core rest ∧ LegibleBefore (decide (precedence e < m) || isLoose m)
      (closing (decide (precedence e < m)) ++ rest) e := by
  have hled : Led (decide (precedence e < m) || isLoose m) R s := by
    intro hor
    rcases (Bool.or_eq_true _ _).mp hor with hin | hl
    · rw [hs, operand, hin]
      exact .inr (refuses_notForm_of_ne (by decide) _)
    · exact .inl (hm hl)
  have hcore : core s = core (render e ++ (closing (decide (precedence e < m)) ++ rest)) := by
    rw [hs, operand, core_bracket]
  obtain ⟨hs', hl⟩ := h heq he hb.closing hcore hled
  exact ⟨hs'.trans (core_closing _ _), hl⟩

/-- An operand at a place where the grammar looks for `not`. -/
theorem Aligned.loose (h : Aligned .assignment s t s') (heq : t.expr.equal e = true)
    (he : Readable e) (hb : IsBoundary rest) (hcore : core s = core (operand m e ++ rest)) :
    core s' = core rest ∧ LegibleBefore true (closing (decide (precedence e < m)) ++ rest) e := by
  rw [operand, core_bracket] at hcore
  obtain ⟨hs, hl⟩ := h heq he hb.closing hcore fun _ => .inl (by decide)
  exact ⟨hs.trans (core_closing _ _), hl⟩

end Place

/-! ## Operations -/

/-- After an operator there is what is printed after it. -/
theorem after_operator {p : Pattern} {w : String} {u : List Char} (hw : w ∈ p.spellings)
    (hop : operatorName w ∈ printedOperators) (hs : skipBlanks s = w.toList ++ s')
    (hcore : core s = core (operatorText (operatorName w) ++ u)) :
    s' = afterOperator (operatorName w) u := by
  have hsolid : ∀ op ∈ printedOperators, IsSolid op.toList := by decide
  rw [core_of_skipBlanks hs (isSolid_spelling w hw),
    core_of_skipBlanks (skipBlanks_operatorText hop u) (hsolid _ hop)] at hcore
  by_cases hstar : w = "**"
  · subst hstar
    exact absurd (List.cons.inj hcore).1 (by decide)
  · have hname : operatorName w = w := by
      rw [operatorName, beq_false_of_ne hstar, if_neg Bool.false_ne_true]
    rw [hname] at hcore ⊢
    exact List.append_cancel_left hcore

theorem aligned_binary {R L C : Rule} {p : Pattern} (hp : R.operator? = some p)
    (hL : ∀ w ∈ p.spellings, L.rank ≤ (ruleAt (leftMinimum (operatorName w))).rank)
    (hC : ∀ w ∈ p.spellings, isLoose (rightMinimum (operatorName w)) = true →
      Rule.negation.rank ≤ C.rank)
    (hRL : Rule.negation.rank ≤ R.rank → Rule.negation.rank ≤ L.rank) (hl : Aligned L s l s₁)
    (hlevel : Leveled L s l) (ho : p.accept (skipBlanks s₁) = some s₂)
    (hr : Aligned C (skipBlanks s₂) r s') :
    Aligned R s (.binary (.between (skipBlanks s₁) s₂) l r) s' := by
  intro e leads rest heq he hb hcore hled
  obtain ⟨hne, hshape⟩ := operator_spelling hp
  obtain ⟨w, hw, hspell⟩ := accept_spelling hne ho
  rw [Tree.expr, text_between hspell] at heq
  obtain ⟨a, b, rfl, heql, heqr⟩ := equal_operation heq
  obtain ⟨-, ha, hb'⟩ := everywhere_operation.1 he
  have hop := mem_printedOperators (hshape w hw).1 (hshape w hw).2
  have hm : leftMinimum (operatorName w) ∈ firstMinimums :=
    List.mem_cons_of_mem _ (List.mem_map_of_mem hop)
  have hu : Opens (operand (rightMinimum (operatorName w)) b ++ rest) :=
    (Begins.bracket (R := level b) fun _ => begins_render hb' rest).opens
  rw [render, List.append_assoc, List.append_assoc] at hcore
  obtain ⟨hc₁, hleft⟩ := hl.first hlevel hm (hL w hw) heql ha (isBoundary_operatorText hop _) hcore
    fun h => (hled h).imp_left hRL
  have hs₂ := after_operator hw hop hspell hc₁
  obtain ⟨hc₂, hright⟩ := hr.exact (hC w hw) heqr hb' hb
    (by rw [hs₂, skipBlanks_afterOperator hu])
  exact ⟨hc₂, everywhere_operation.2 ⟨rfl, hleft.quotes, hright.quotes⟩,
    List.forall_mem_append.2 ⟨hleft.names, hright.names⟩⟩

theorem Rule.tighter_ne_exponent (R : Rule) : R.tighter ≠ .exponent := by
  cases R <;> nofun

theorem leveled_of_chain {R : Rule} {p : Pattern} (hp : R.operator? = some p)
    (h : Chain AlignedBy p R.tighter s t s') : Leveled R s t := by
  have hle : R.tighter.rank ≤ R.rank := by
    have all : ∀ R ∈ Rule.all, R.tighter.rank ≤ R.rank := by decide
    exact all R R.mem_all
  exact leveled_chain hp (fun h => (leveled_of_reads R.tighter_ne_exponent h).mono hle)
    (h.imp fun h => h.1)

theorem aligned_chain {R : Rule} {p : Pattern} (hR : R.isChain = true) (hp : R.operator? = some p)
    (h : Chain AlignedBy p R.tighter s t s') : Aligned R s t s' := by
  have hne : R ≠ .negation := by rintro rfl; cases hR
  have hL : ∀ w ∈ p.spellings, R.rank ≤ (ruleAt (leftMinimum (operatorName w))).rank := by
    cases R <;> cases hR <;> cases hp <;> decide
  have hC : ∀ w ∈ p.spellings, isLoose (rightMinimum (operatorName w)) = true →
      Rule.negation.rank ≤ R.tighter.rank := by
    cases R <;> cases hR <;> cases hp <;> decide
  induction h with
  | one h => exact h.2.of_tighter hne
  | more hc ho hr ih => exact aligned_binary hp hL hC id ih (leveled_of_chain hp hc) ho hr.2

theorem aligned_rightChain {R C : Rule} {p : Pattern}
    (hR : R = .assignment ∧ C = .assignment ∨ R = .power ∧ C = .exponent)
    (hp : R.operator? = some p)
    (h : Derives grammar AlignedBy (Reads.rightChain p R.tighter C) s t s') :
    Aligned R s t s' := by
  have hne : R ≠ .negation := by rcases hR with ⟨rfl, -⟩ | ⟨rfl, -⟩ <;> nofun
  rcases derives_rightChain.1 h with ⟨h, -⟩ | ⟨l, s₁, s₂, r, hl, ho, hr, rfl⟩
  · exact h.2.of_tighter hne
  · refine aligned_binary hp ?_ ?_ ?_ hl.2 (leveled_of_reads R.tighter_ne_exponent hl.1) ho hr.2
    all_goals rcases hR with ⟨rfl, rfl⟩ | ⟨rfl, rfl⟩ <;> cases hp <;> decide

/-- What is printed after a prefix operator. -/
theorem prefixText_append {w : String} (h : w ∈ prefixOperators.map Prod.fst) (u : List Char) :
    prefixText w ++ u = w.toList ++ if w = "not" then ' ' :: u else u := by
  have hw : w = "not" ∨ w = "-" ∨ w = "+" ∨ w = "'" ∨ w = "''" := by
    simpa [prefixOperators] using h
  rcases hw with rfl | rfl | rfl | rfl | rfl <;> rfl

/-- Two quotes in a row are read as one operator. -/
theorem stacksQuotes_of_accept {p : Pattern} {w : String} (h : p.accept s = some s₁)
    (hp : p = .sign ∨ p = .notWord) (hs : s = w.toList ++ s₁)
    (hs₁ : w = "'" → s₁ = operand (prefixPrecedence "'") e ++ rest) :
    (Expr.prefixed w e).stacksQuotes = false := by
  rw [Bool.eq_false_iff]
  intro hq
  obtain ⟨hw, hquoted⟩ := (Bool.and_eq_true _ _).mp hq
  obtain rfl : w = "'" := eq_of_beq hw
  have hquote : ∃ u, s₁ = '\'' :: u := by
    rw [hs₁ rfl]
    cases e with
    | prefixed op d =>
      have hop : op = "'" ∨ op = "''" := by simpa [isQuoted] using hquoted
      rcases hop with rfl | rfl
      · exact ⟨_, rfl⟩
      · exact ⟨_, rfl⟩
    | _ => cases hquoted
  obtain ⟨u, rfl⟩ := hquote
  subst hs
  rcases hp with rfl | rfl
  · exact absurd (Option.some.inj h) (List.cons_ne_self _ _).symm
  · cases h

theorem aligned_unary {R Q : Rule} {p : Pattern}
    (hp : p = .sign ∨ p = .notWord ∧ Rule.negation.rank ≤ Q.rank) (ho : p.accept s = some s₁)
    (hu : Aligned Q (skipBlanks s₁) t s') :
    Aligned R s (.unary (.between s s') (.between s s₁) t) s' := by
  intro e leads rest heq he hb hcore _
  have hspellings : p.spellings ≠ [] ∧ ∀ w ∈ p.spellings, IsSolid (prefixText w) ∧
      (isLoose (prefixPrecedence w) = true → p = .notWord) := by
    rcases hp with rfl | ⟨rfl, -⟩ <;> decide
  obtain ⟨w, hw, hs⟩ := accept_spelling hspellings.1 ho
  obtain ⟨hsolid, hloose⟩ := hspellings.2 w hw
  rw [Tree.expr, text_between hs] at heq
  obtain ⟨d, rfl, heqd⟩ := equal_prefixed heq
  obtain ⟨⟨hop, -⟩, hd⟩ := everywhere_prefixed.1 he
  have hopens : Opens (operand (prefixPrecedence w) d ++ rest) :=
    (Begins.bracket (R := level d) fun _ => begins_render hd rest).opens
  rw [render, List.append_assoc] at hcore
  have hprinted : s = prefixText w ++ (operand (prefixPrecedence w) d ++ rest) :=
    eq_of_core hcore (hs ▸ (isSolid_spelling w hw).append s₁) (hsolid.append _)
  rw [prefixText_append hop, hs] at hprinted
  have hs₁ := List.append_cancel_left hprinted
  have hskip : skipBlanks s₁ = operand (prefixPrecedence w) d ++ rest := by
    rw [hs₁]
    split
    · rw [skipBlanks_space, hopens.skipBlanks]
    · exact hopens.skipBlanks
  have hoperand : w = "'" → s₁ = operand (prefixPrecedence "'") d ++ rest := by
    rintro rfl
    rw [hs₁, if_neg (by decide)]
  have hquotes := stacksQuotes_of_accept ho (hp.imp_right And.left) hs hoperand
  have hQ (hl : isLoose (prefixPrecedence w) = true) : Rule.negation.rank ≤ Q.rank := by
    rcases hp with rfl | ⟨-, hQ⟩
    · cases hloose hl
    · exact hQ
  obtain ⟨hc, hl⟩ := hu.exact hQ heqd hd hb hskip
  exact ⟨hc, everywhere_prefixed.2 ⟨hquotes, hl.quotes⟩, hl.names⟩

theorem aligned_prefixed {R Q : Rule} {p : Pattern}
    (hp : p = .sign ∨ p = .notWord ∧ Rule.negation.rank ≤ Q.rank)
    (h : Derives grammar AlignedBy (Reads.prefixed p Q) s t s') : Aligned R s t s' := by
  obtain ⟨s₁, u, ho, hu, rfl⟩ := derives_prefixed.1 h
  exact aligned_unary hp ho hu.2

theorem aligned_factorial (h : Derives grammar AlignedBy Reads.factorial s t s') :
    Aligned .factorial s t s' := by
  have hne : Rule.factorial ≠ .negation := nofun
  rcases derives_factorial.1 h with ⟨hu, -⟩ | ⟨u, hu, rfl⟩
  · exact Aligned.of_tighter (R := .factorial) hu.2 hne
  · intro e leads rest heq he _ hcore hled
    obtain ⟨d, rfl, heqd⟩ := equal_postfixed heq
    rw [render, List.append_assoc] at hcore
    have hbang : IsBoundary ("!".toList ++ rest) := (by decide : '!' ∈ boundaries)
    have hprimary : Rule.primary ≠ .exponent := nofun
    obtain ⟨hc, hl⟩ := hu.2.first (leveled_of_reads hprimary hu.1) List.mem_cons_self
      (Nat.zero_le _) heqd (everywhere_postfixed.1 he).2 hbang hcore (hled.tighter hne)
    exact ⟨core_of_cons hc, everywhere_postfixed.2 ⟨rfl, hl.quotes⟩, hl.names⟩

/-! ## Atoms -/

/-- A token that is read as the printed one is the printed one. -/
theorem eq_of_accept {p : Pattern} {u : List Char} (h : p.accept s = some s')
    (hcore : core s = core (u ++ rest)) (hs : IsSolid s) (hu : IsSolid u)
    (hp : p.accept (u ++ rest) = some rest) : s = u ++ rest ∧ s' = rest := by
  have heq := eq_of_core hcore hs (hu.append rest)
  rw [heq, hp] at h
  exact ⟨heq, (Option.some.inj h).symm⟩

theorem aligned_float (h : Pattern.float.accept s = some s') :
    Aligned .primary s (.atom .float (.between s s')) s' := by
  intro e leads rest heq he hb hcore _
  obtain ⟨x, text, rfl⟩ := equal_float heq
  obtain ⟨⟨hl, -⟩, -⟩ := everywhere_float.1 he
  obtain ⟨u, hu, hlexeme⟩ := Numeral.float_lexeme h
  have hs : IsSolid s := hu ▸ (isSolid_float hlexeme).append s'
  obtain ⟨-, rfl⟩ := eq_of_accept h hcore hs (isSolid_float hl) (acceptFloat_append hb hl)
  exact ⟨rfl, everywhere_float.2 rfl, nofun⟩

theorem aligned_integer (h : Pattern.integer.accept s = some s') :
    Aligned .primary s (.atom .integer (.between s s')) s' := by
  intro e leads rest heq he hb hcore _
  obtain rfl := equal_integer heq
  obtain ⟨u, hu, hne, hdigits⟩ := integer_lexeme h
  rw [render_integer (everywhere_integer.1 he).2] at hcore
  have solid {ds : List Char} (hds : ds ≠ []) (hd : ∀ c ∈ ds, isDecimalDigit c = true) :
      IsSolid ds := by
    cases ds with
    | nil => exact absurd rfl hds
    | cons d ds => exact isSolid_digit (hd d List.mem_cons_self) ds
  have hprinted : ∀ c ∈ Nat.toDigits 10 (digitsToNat (Piece.between s s').text.toList : Int).natAbs,
      isDecimalDigit c = true := fun c hc => isDecimalDigit_of_mem_toDigits hc
  have hs : IsSolid s := hu ▸ (solid hne hdigits).append s'
  obtain ⟨-, rfl⟩ := eq_of_accept h hcore hs (solid Nat.toDigits_ne_nil hprinted)
    (acceptInteger_digits Nat.toDigits_ne_nil hprinted hb)
  exact ⟨rfl, everywhere_integer.2 rfl, nofun⟩

theorem aligned_string (h : Pattern.string.accept s = some s') :
    Aligned .primary s (.atom .string (.between s s')) s' := by
  intro e leads rest heq _ _ hcore _
  obtain rfl := equal_string heq
  have hs : IsSolid s := by
    change acceptString s = some s' at h
    unfold acceptString at h
    split at h
    · exact (by decide : isPadding '"' = false)
    · cases h
  have hu : IsSolid (Literal.quote (String.ofList
      (Literal.unquote (Piece.between s s').text.toList)).toList) :=
    (by decide : isPadding '"' = false)
  obtain ⟨-, rfl⟩ := eq_of_accept h hcore hs hu (acceptString_quote _ _)
  exact ⟨rfl, everywhere_string.2 rfl, nofun⟩

theorem aligned_boolean (h : Pattern.boolean.accept s = some s') :
    Aligned .primary s (.atom .boolean (.between s s')) s' := by
  intro e leads rest heq _ hb hcore _
  obtain rfl := equal_boolean heq
  have hs : IsSolid s := by
    rcases Option.or_eq_some_iff.1 h with h | ⟨-, h⟩
    · rw [(acceptWord_eq_some.1 h).1]
      exact (by decide : isPadding 't' = false)
    · rw [(acceptWord_eq_some.1 h).1]
      exact (by decide : isPadding 'f' = false)
  have hu : ∀ b, IsSolid (render (.boolean b)) := by decide
  obtain ⟨-, rfl⟩ := eq_of_accept h hcore hs (hu _) (acceptBoolean_append _ hb)
  exact ⟨rfl, everywhere_boolean.2 rfl, nofun⟩

/-- A name that is read as the printed one is the printed one. -/
theorem eq_of_acceptIdentifier {name : String} (h : Pattern.identifier.accept s = some s')
    (hn : IsReadName name) (hr : EndsName rest) (hcore : core s = core (name.toList ++ rest)) :
    s = name.toList ++ rest ∧ s' = rest := by
  obtain ⟨u, hu, hl, -⟩ := identifier_lexeme h
  have hs : IsSolid s := hu ▸ (isSolid_name hl).append s'
  exact eq_of_accept h hcore hs (isSolid_name hn.1) (acceptIdentifier_append hr hn.1)

/-- Where a name is read there is no conditional, and no `not` where it is looked for. -/
theorem clear_name (h : Refuses grammar Reads.conditional s) (hled : Led leads .primary s) :
    (Site.mk leads s).Clear :=
  ⟨h, fun hl => (hled hl).resolve_left (by decide)⟩

theorem aligned_identifier (h : Pattern.identifier.accept s = some s')
    (hc : Refuses grammar Reads.conditional s) :
    Aligned .primary s (.atom .identifier (.between s s')) s' := by
  intro e leads rest heq he hb hcore hled
  obtain rfl := equal_identifier heq
  obtain ⟨hs, rfl⟩ := eq_of_acceptIdentifier h (everywhere_identifier.1 he).1 (.inl hb) hcore
  refine ⟨rfl, everywhere_identifier.2 rfl, List.forall_mem_singleton.2 ?_⟩
  rw [← hs]
  exact clear_name hc hled

end AlgebraBatch.Syntax
