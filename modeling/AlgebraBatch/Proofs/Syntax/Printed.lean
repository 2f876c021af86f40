import AlgebraBatch.Proofs.Syntax.Depth
import AlgebraBatch.Proofs.Syntax.Place

/-!
# Printed expressions are read back

For each kind of expression, the rules read it from what is printed if they so read its parts.
By induction every readable expression whose names are clear is read back, and a well-formed one up
to the signs of its numbers.
-/

namespace AlgebraBatch.Syntax

open AlgebraBatch.Text Peg AlgebraBatch.Expr AlgebraBatch.Syntax.Tree

/-! ## Atoms -/

theorem means_atom {k : AtomKind} {p : Piece} {e : Expr} (he : k.expr p.text = e)
    (hk : k = .integer → p.text.length ≤ Numeral.maxDigits) : (Tree.atom k p).Means e := by
  refine ⟨he, overlong?_eq_none.2 (List.forall_mem_singleton.2 ?_)⟩
  cases k with
  | integer => exact if_neg (Nat.not_lt.2 (hk rfl))
  | _ => rfl

/-- A primary expression that is read where its text ends. -/
theorem reproduced_of_primary {e : Expr} (hl : level e = .primary)
    (h : ∀ leads rest, IsBoundary rest → (∀ σ ∈ sites leads rest e, σ.Clear) →
      ∃ t, t.Means e ∧ ReadsAs .primary (render e ++ rest) t rest) : Reproduced e := by
  intro leads rest hends _ hσ
  obtain ⟨t, ht, hr⟩ := h leads rest hends.stops.boundary hσ
  rw [hl]
  exact ⟨t, ht, partial_of_reads rfl hr⟩

theorem reproduced_integer {n : Int} (h : Readable (.integer n)) : Reproduced (.integer n) := by
  obtain ⟨hd, hn⟩ := everywhere_integer.1 h
  have hneg : ¬ n < 0 := of_decide_eq_false hn
  have hdig : ∀ c ∈ Nat.toDigits 10 n.natAbs, isDecimalDigit c = true :=
    fun c hc => isDecimalDigit_of_mem_toDigits hc
  refine reproduced_of_primary (level_of_atom (precedence_integer hn)) fun _ rest hb _ => ?_
  rw [render_integer hn]
  refine ⟨_, ?_, reads_integer (acceptFloat_digits hdig hb)
    (acceptInteger_digits Nat.toDigits_ne_nil hdig hb)⟩
  refine means_atom ?_ fun _ => ?_
  · rw [text_between_append, AtomKind.expr, String.toList_ofList, digitsToNat_toDigits,
      Int.natAbs_of_nonneg (Int.not_lt.1 hneg)]
  · rw [text_between_append, String.length_ofList]
    exact hd

theorem reproduced_float {x : Binary64} {text : String} (h : Readable (.float x text)) :
    Reproduced (.float x text) := by
  obtain ⟨hd, -⟩ := everywhere_float.1 h
  refine reproduced_of_primary (level_of_atom (precedence_float hd)) fun _ rest hb _ => ?_
  refine ⟨_, ?_, reads_float (acceptFloat_append hb hd.1)⟩
  refine means_atom ?_ nofun
  rw [text_between_append, render, AtomKind.expr, String.ofList_toList, hd.2]

theorem reproduced_string (s : String) : Reproduced (.string s) := by
  refine reproduced_of_primary rfl fun _ rest _ _ => ?_
  refine ⟨_, ?_, reads_string rfl rfl (acceptString_quote _ _)⟩
  refine means_atom ?_ nofun
  rw [text_between_append, render, AtomKind.expr, String.toList_ofList, unquote_quote,
    String.ofList_toList]

/-- The word of a truth value is read where it is printed. -/
theorem acceptBoolean_append (b : Bool) {r : List Char} (hr : IsBoundary r) :
    Pattern.boolean.accept (render (.boolean b) ++ r) = some r := by
  have hend := atWordEnd_boundary hr
  cases b with
  | false =>
    change (none : Option (List Char)).or (acceptWord "false".toList _) = _
    rw [Option.none_or]
    exact acceptWord_eq_some.2 ⟨rfl, hend⟩
  | true =>
    have ht : acceptWord "true".toList ("true".toList ++ r) = some r :=
      acceptWord_eq_some.2 ⟨rfl, hend⟩
    change (acceptWord "true".toList ("true".toList ++ r)).or _ = _
    rw [ht]
    rfl

theorem reproduced_boolean (b : Bool) : Reproduced (.boolean b) := by
  refine reproduced_of_primary rfl fun _ rest hb _ => ?_
  have hacc := acceptBoolean_append b hb
  have hread : ReadsAs .primary (render (.boolean b) ++ rest)
      (.atom .boolean (.between (render (.boolean b) ++ rest) rest)) rest := by
    cases b with
    | false => exact reads_boolean rfl rfl rfl hacc
    | true => exact reads_boolean rfl rfl rfl hacc
  refine ⟨_, ?_, hread⟩
  refine means_atom ?_ nofun
  rw [text_between_append]
  cases b with
  | false => rfl
  | true => rfl

/-! ## Names -/

/-- A name begins with no literal. -/
theorem noLiteral_name {name : String} (h : IsReadName name) {r : List Char} (hr : EndsName r) :
    NoLiteral (name.toList ++ r) := by
  obtain ⟨c, t, ht, hc, -⟩ := identifier_cons h.1
  have hdigit := not_isDecimalDigit_of_isNameStart hc
  have hmark : ∀ d ∈ ['.', '"'], c ≠ d := by
    rintro d hd rfl
    have all : ∀ d ∈ ['.', '"'], isNameStart d = false := by decide
    rw [all c hd] at hc
    cases hc
  have none_of {w : String} (hm : w ∈ ["true", "false"])
      (hw : ∀ c ∈ w.toList, isWordChar c = true) : acceptWord w.toList (name.toList ++ r) = none := by
    refine acceptWord_identifier hw hr h.1 fun e => h.2 ?_
    rw [e, String.ofList_toList]
    exact hm
  have hboolean : Pattern.boolean.accept (name.toList ++ r) = none := by
    change (acceptWord "true".toList _).or (acceptWord "false".toList _) = none
    rw [none_of (by decide) (by decide), none_of (by decide) (by decide)]
    rfl
  rw [ht] at hboolean ⊢
  refine ⟨?_, ?_, ?_, hboolean⟩
  · change acceptFloat (c :: (t ++ r)) = none
    rw [acceptFloat, hdigit, if_neg Bool.false_ne_true, if_neg]
    simpa using hmark '.' (by decide)
  · change acceptInteger (c :: (t ++ r)) = none
    rw [acceptInteger, startsWithDigit, hdigit, if_neg Bool.false_ne_true]
  · change acceptString (c :: (t ++ r)) = none
    unfold acceptString
    split
    · next e => cases e; exact absurd rfl (hmark '"' (by decide))
    · rfl

theorem reproduced_identifier {name : String} (h : IsReadName name) :
    Reproduced (.identifier name) := by
  refine reproduced_of_primary rfl fun leads rest hb hσ => ?_
  have hclear := (hσ _ List.mem_cons_self).conditional
  have hne (o : Char) (ho : o ∉ boundaries) : ∀ r, rest ≠ o :: r := by
    rintro r rfl
    exact ho hb
  refine ⟨_, ?_, reads_identifier (noLiteral_name h (.inl hb)) hclear
    (acceptIdentifier_append (.inl hb) h.1) (hne _ (by decide)) (hne _ (by decide))⟩
  refine means_atom ?_ nofun
  rw [text_between_append, AtomKind.expr, String.ofList_toList]

/-! ## Operations -/

section Operations

variable {op : String} {l r e : Expr}

theorem minimums_gt (hop : op ∈ printedOperators) :
    conditionalPrecedence < leftMinimum op ∧ conditionalPrecedence < rightMinimum op := by
  have all : ∀ op ∈ printedOperators,
      conditionalPrecedence < leftMinimum op ∧ conditionalPrecedence < rightMinimum op := by decide
  exact all op hop

theorem isChain_operatorRule (hop : op ∈ printedOperators) :
    (operatorRule op).isChain = !isRightAssociative op := by
  have all : ∀ op ∈ printedOperators,
      (operatorRule op).isChain = !isRightAssociative op := by decide
  exact all op hop

/-- The piece of an operator gives its name. -/
theorem operatorName_piece (hop : op ∈ printedOperators) (u : List Char) :
    operatorName (Piece.between (skipBlanks (operatorText op ++ u)) (afterOperator op u)).text =
      op := by
  have hne : op ≠ "**" := by
    rintro rfl
    exact absurd hop (by decide)
  rw [skipBlanks_operatorText hop, text_between_append, String.ofList_toList, operatorName,
    beq_false_of_ne hne, if_neg Bool.false_ne_true]

variable (hop : op ∈ printedOperators) (hl : Readable l) (hr : Readable r) (ihl : Reproduced l)
  (ihr : Reproduced r)
include hop hl hr ihl ihr

theorem reproduced_left (ha : isRightAssociative op = false) :
    Reproduced (.operation op l r) := by
  intro leads rest hends hleads hσ
  obtain ⟨hσl, hσr⟩ := List.forall_mem_append.1 hσ
  have hchain : (operatorRule op).isChain = true := by rw [isChain_operatorRule hop, ha]; rfl
  have hu : Opens (operand (rightMinimum op) r ++ rest) :=
    (Begins.bracket (R := level r) fun _ => begins_render hr rest).opens
  obtain ⟨p, hp, hacc⟩ := accept_operator hop hu
  obtain ⟨hml, hmr⟩ := ruleAt_operands_left hop ha
  obtain ⟨hgl, hgr⟩ := minimums_gt hop
  have hbase : (level (.operation op l r)).base = (operatorRule op).tighter := if_pos hchain
  obtain ⟨tl, htl, hcl⟩ := ihl.chain hl hgl hchain hp hml (stops_operator hop hu) hleads hσl
  obtain ⟨tr, htr, hrr⟩ := ihr.place hr hgr (R := (operatorRule op).tighter) (hmr ▸ Nat.le_refl _)
    (hbase ▸ hends.stops) (fun hn => isLoose_of_rank_le (hmr ▸ hn)) hσr
  have hskip := skipBlanks_operatorText hop (operand (rightMinimum op) r ++ rest)
  have hname := operatorName_piece hop (operand (rightMinimum op) r ++ rest)
  refine ⟨_, htl.binary htr hname, ?_⟩
  rw [level_operation, Partial, if_pos hchain, render, List.append_assoc, List.append_assoc]
  refine ⟨p, hp, .more hcl (by rw [hskip]; exact hacc) ?_⟩
  rw [skipBlanks_afterOperator hu]
  exact hrr

theorem reproduced_right (ha : isRightAssociative op = true) :
    Reproduced (.operation op l r) := by
  intro leads rest hends hleads hσ
  obtain ⟨hσl, hσr⟩ := List.forall_mem_append.1 hσ
  have hchain : (operatorRule op).isChain = false := by rw [isChain_operatorRule hop, ha]; rfl
  have hu : Opens (operand (rightMinimum op) r ++ rest) :=
    (Begins.bracket (R := level r) fun _ => begins_render hr rest).opens
  obtain ⟨p, hp, hacc⟩ := accept_operator hop hu
  obtain ⟨hml, hmr, hrule⟩ := ruleAt_operands_right hop ha
  obtain ⟨hgl, hgr⟩ := minimums_gt hop
  have hbase : (level (.operation op l r)).base = operatorRule op := by
    rw [level_operation, Rule.base, hchain, if_neg Bool.false_ne_true]
  have hstops : Stops (operatorRule op) rest := hbase ▸ hends.stops
  have hlt : (operatorRule op).tighter.rank ≤ (operatorRule op).rank := by
    rcases hrule with h | h <;> rw [h] <;> decide
  obtain ⟨tl, htl, hrl⟩ := ihl.place hl hgl (R := (operatorRule op).tighter) (hml ▸ Nat.le_refl _)
    (stops_operator hop hu) (fun hn => hleads (hn.trans hlt)) hσl
  have hskip := skipBlanks_operatorText hop (operand (rightMinimum op) r ++ rest)
  have hname := operatorName_piece hop (operand (rightMinimum op) r ++ rest)
  have hafter : skipBlanks (afterOperator op _) = _ := skipBlanks_afterOperator hu
  have hacc' : p.accept (skipBlanks (operatorText op ++ (operand (rightMinimum op) r ++ rest))) =
      some (afterOperator op (operand (rightMinimum op) r ++ rest)) := by rw [hskip]; exact hacc
  have right {C : Rule} (hC : (operatorRule op).rank ≤ C.rank) (hs : Stops C rest)
      (hn : Rule.negation.rank ≤ C.rank → Rule.negation.rank ≤ (operatorRule op).rank) :=
    ihr.place hr hgr (hmr ▸ hC) hs (fun h => isLoose_of_rank_le (hmr ▸ hn h)) hσr
  rw [level_operation, render, List.append_assoc, List.append_assoc]
  rcases hrule with h | h
  · obtain ⟨tr, htr, hrr⟩ := right (C := .assignment) (by rw [h]) (h ▸ hstops) (by rw [h]; exact id)
    refine ⟨_, htl.binary htr hname, partial_of_reads hchain ?_⟩
    rw [h] at hp hrl ⊢
    cases hp
    exact yields_rule_iff.2 (derives_rightChain.2
      (.inr ⟨tl, _, _, tr, hrl, hacc', by rw [hafter]; exact hrr, rfl⟩))
  · have hs : Stops .exponent rest := by
      rw [h] at hstops
      refine ⟨hstops.boundary, fun {Q q} hQ hq => ?_, fun _ => hstops.bang (by decide)⟩
      cases Q with
      | exponent => cases hq
      | _ => exact hstops.operators (by revert hQ; decide) hq
    obtain ⟨tr, htr, hrr⟩ := right (C := .exponent) (by rw [h]; decide) hs (by rw [h]; decide)
    refine ⟨_, htl.binary htr hname, partial_of_reads hchain ?_⟩
    rw [h] at hp hrl ⊢
    cases hp
    exact yields_rule_iff.2 (derives_rightChain.2
      (.inr ⟨tl, _, _, tr, hrl, hacc', by rw [hafter]; exact hrr, rfl⟩))

theorem reproduced_operation : Reproduced (.operation op l r) := by
  cases ha : isRightAssociative op with
  | false => exact reproduced_left hop hl hr ihl ihr ha
  | true => exact reproduced_right hop hl hr ihl ihr ha

end Operations

/-- An expression that binds like a sign and begins with a quote is a quoted one. -/
theorem isQuoted_of_begins {e : Expr} (h : Readable e) (hm : prefixPrecedence "-" ≤ precedence e)
    {r s : List Char} (hs : render e ++ r = '\'' :: s) : e.isQuoted = true := by
  have tight : ¬ (level e).rank < Rule.signed.rank := by
    intro hlt
    have hn := (begins_render h r).sign hlt
    rw [hs] at hn
    cases s with
    | nil => exact absurd hn (by decide)
    | cons c s =>
      change acceptAny _ ('\'' :: c :: s) = none at hn
      by_cases hc : c = '\''
      · subst hc
        simp [acceptAny] at hn
      · simp [acceptAny, Ne.symm hc] at hn
  cases e with
  | prefixed op e =>
    obtain ⟨⟨hd, -⟩, -⟩ := everywhere_prefixed.1 h
    rw [render] at hs
    obtain rfl | rfl | rfl | rfl | rfl := prefixOperator_cases hd
    · cases hs
    · cases hs
    · cases hs
    · rfl
    · rfl
  | operation op l r =>
    obtain ⟨⟨⟨ho, hne⟩, -⟩, -⟩ := everywhere_operation.1 h
    have all : ∀ op ∈ printedOperators, prefixPrecedence "-" ≤ binaryPrecedence op →
        (operatorRule op).rank < Rule.signed.rank := by decide
    exact absurd (all op (mem_printedOperators ho hne) hm) tight
  | integer n =>
    obtain ⟨-, hn⟩ := everywhere_integer.1 h
    rw [level_of_atom (precedence_integer hn)] at tight
    exact absurd (by decide) tight
  | float x text =>
    rw [level_of_atom (precedence_float (everywhere_float.1 h).1)] at tight
    exact absurd (by decide) tight
  | root items => exact absurd (Everywhere.self h).1 id
  | postfixed op e => exact absurd (by decide : Rule.factorial.rank < Rule.signed.rank) tight
  | _ => exact absurd (by decide : Rule.primary.rank < Rule.signed.rank) tight

section Prefixed

variable {op : String} {e : Expr} (he : Readable e) (ih : Reproduced e)
include he ih

theorem reproduced_not : Reproduced (.prefixed "not" e) := by
  intro leads rest hends _ hσ
  have hs : Stops .negation rest := hends.stops
  obtain ⟨t, ht, hr⟩ := ih.place he (m := prefixPrecedence "not") (by decide) (R := .negation)
    (by decide) hs (fun _ => rfl) hσ
  have hu : Opens (operand (prefixPrecedence "not") e ++ rest) :=
    (Begins.bracket (R := level e) fun _ => begins_render he rest).opens
  have hacc := accept_notWord (operand (prefixPrecedence "not") e ++ rest)
  have htext := text_between_append "not".toList
    (' ' :: (operand (prefixPrecedence "not") e ++ rest))
  rw [render, List.append_assoc]
  refine ⟨_, ht.unary htext, partial_of_reads rfl (yields_rule_iff.2 (.inl (derives_prefixed.2
    ⟨_, t, hacc, ?_, rfl⟩)))⟩
  rw [skipBlanks_space, hu.skipBlanks]
  exact hr

theorem reproduced_sign (hop : op ∈ ["-", "+", "'", "''"])
    (hq : (Expr.prefixed op e).stacksQuotes = false) : Reproduced (.prefixed op e) := by
  intro leads rest hends _ hσ
  have hprec : prefixPrecedence op = prefixPrecedence "-" := by
    have all : ∀ op ∈ ["-", "+", "'", "''"], prefixPrecedence op = prefixPrecedence "-" := by decide
    exact all op hop
  have hlevel : level (.prefixed op e) = .signed := by rw [level_prefixed, hprec]; rfl
  have hs : Stops .signed rest := by
    have := hends.stops
    rwa [hlevel] at this
  obtain ⟨t, ht, hr⟩ := ih.place he (m := prefixPrecedence op) (by rw [hprec]; decide)
    (R := .signed) (by rw [hprec]; decide) hs nofun hσ
  have hu : Opens (operand (prefixPrecedence op) e ++ rest) :=
    (Begins.bracket (R := level e) fun _ => begins_render he rest).opens
  -- A quote right after the operator would be that of a quoted operand.
  have hacc : Pattern.sign.accept (prefixText op ++ (operand (prefixPrecedence op) e ++ rest)) =
      some (operand (prefixPrecedence op) e ++ rest) := by
    refine accept_sign hop ?_
    rintro rfl r hur
    cases hb : decide (precedence e < prefixPrecedence "'") with
    | true =>
      rw [operand, hb] at hur
      cases hur
    | false =>
      rw [operand, hb] at hur
      have := isQuoted_of_begins he (Nat.not_lt.1 (of_decide_eq_false hb)) hur
      rw [stacksQuotes, this] at hq
      cases hq
  have htext : (Piece.between (prefixText op ++ (operand (prefixPrecedence op) e ++ rest))
      (operand (prefixPrecedence op) e ++ rest)).text = op := by
    rw [text_between_append]
    have all : ∀ op ∈ ["-", "+", "'", "''"], String.ofList (prefixText op) = op := by decide
    exact all op hop
  rw [hlevel, render, List.append_assoc]
  refine ⟨_, ht.unary htext, partial_of_reads rfl (yields_rule_iff.2 (.inl (derives_prefixed.2
    ⟨_, t, hacc, ?_, rfl⟩)))⟩
  rw [hu.skipBlanks]
  exact hr

theorem reproduced_prefixed (hop : op ∈ prefixOperators.map Prod.fst)
    (hq : (Expr.prefixed op e).stacksQuotes = false) : Reproduced (.prefixed op e) := by
  have all : ∀ op ∈ prefixOperators.map Prod.fst, op = "not" ∨ op ∈ ["-", "+", "'", "''"] := by
    decide
  rcases all op hop with rfl | h
  · exact reproduced_not he ih
  · exact reproduced_sign he ih h hq

theorem reproduced_factorial : Reproduced (.postfixed "!" e) := by
  intro leads rest _ _ hσ
  have hs : Stops .primary ('!' :: rest) := by
    refine ⟨(by decide : '!' ∈ boundaries), fun {Q p} hQ hp => ?_, fun h => absurd h (by decide)⟩
    cases Q with
    | primary => cases hp
    | _ => exact absurd hQ (by decide)
  obtain ⟨t, ht, hr⟩ := ih.place he (m := postfixPrecedence + 1) (by decide) (R := .primary)
    (by decide) hs nofun hσ
  rw [render, List.append_assoc]
  exact ⟨_, ht.factorial, partial_of_reads rfl
    (yields_rule_iff.2 (derives_factorial.2 (.inr ⟨t, hr, rfl⟩)))⟩

end Prefixed

/-! ## Items -/

/-- What is printed after an item, where `es` are the further items. -/
def afterItem (es : List Expr) (rest : List Char) : List Char :=
  if es.isEmpty then rest else ',' :: (renderItems [','] es ++ rest)

theorem renderItems_append (e : Expr) (es : List Expr) (rest : List Char) :
    renderItems [','] (e :: es) ++ rest = render e ++ afterItem es rest := by
  cases es with
  | nil => rfl
  | cons d es =>
    have hne : d :: es ≠ [] := nofun
    rw [renderItems_cons hne, List.append_assoc, List.append_assoc]
    rfl

theorem closes_afterItem {es : List Expr} {rest : List Char} (h : Closes rest) :
    Closes (afterItem es rest) := by
  cases es with
  | nil => exact h
  | cons e es => exact .inr ⟨',', _, rfl, by decide⟩

section Items

variable {c : Char} (hc : c ∈ [')', ']', '\x7d'])
include hc

theorem closes_bracket (rest : List Char) : Closes (c :: rest) := by
  have all : ∀ c ∈ [')', ']', '\x7d'], c ∈ [')', ']', '\x7d', ','] := by decide
  exact .inr ⟨c, rest, rfl, all c hc⟩

theorem skipBlanks_bracket (rest : List Char) : skipBlanks (c :: rest) = c :: rest := by
  have all : ∀ c ∈ [')', ']', '\x7d'], isPatternBlank c = false := by decide
  exact List.dropWhile_cons_of_neg (ne_true_of_eq_false (all c hc))

theorem refuses_commaItem (rest : List Char) : Refuses grammar Reads.commaItem (c :: rest) := by
  have all : ∀ c ∈ [')', ']', '\x7d'], c ≠ ',' := by decide
  refine refuses_spaced.2 (refuses_map.2 (refuses_seq.2 (.inl (refuses_token.2 ?_))))
  rw [skipBlanks_bracket hc]
  cases e : Terminal.accept (.literal ',') (c :: rest) with
  | none => exact e
  | some r => exact absurd (List.cons.inj (accept_literal.1 e)).1 (all c hc)

theorem repeats_items {rest : List Char} {es : List Expr} (he : ∀ e ∈ es, Readable e)
    (ih : ∀ e ∈ es, Reproduced e) (hσ : ∀ σ ∈ itemSites (c :: rest) es, σ.Clear) :
    ∃ ts, MeansAll ts es ∧ Repeats (Derives grammar ReadsAs Reads.commaItem)
      (Refuses grammar Reads.commaItem) (afterItem es (c :: rest)) ts (c :: rest) := by
  induction es with
  | nil => exact ⟨[], .nil, .nil (refuses_commaItem hc rest)⟩
  | cons e es ihes =>
    obtain ⟨hσe, hσes⟩ := List.forall_mem_append.1 hσ
    have hee := he e List.mem_cons_self
    obtain ⟨ts, hts, hr⟩ := ihes (fun d hd => he d (List.mem_cons_of_mem _ hd))
      (fun d hd => ih d (List.mem_cons_of_mem _ hd)) hσes
    obtain ⟨t, ht, hre⟩ := (ih e List.mem_cons_self).closed hee
      (closes_afterItem (closes_bracket hc rest)) hσe
    refine ⟨t :: ts, .cons ht hts, .cons (derives_commaItem.2 ⟨_, rfl, ?_⟩) hr⟩
    rw [renderItems_append, (begins_render hee _).opens.skipBlanks]
    exact hre

/-- The items between brackets are read. -/
theorem derives_printedItems (opening : Char) {rest : List Char} {es : List Expr}
    (he : ∀ e ∈ es, Readable e) (ih : ∀ e ∈ es, Reproduced e)
    (hσ : ∀ σ ∈ itemSites (c :: rest) es, σ.Clear) :
    ∃ ts, MeansAll ts es ∧ Derives grammar ReadsAs (Reads.enclosed opening c)
      (opening :: (renderItems [','] es ++ c :: rest)) ts rest := by
  have hclose := skipBlanks_bracket hc rest
  cases es with
  | nil =>
    refine ⟨[], .nil, derives_enclosed.2 ⟨_, c :: rest, rfl, ?_, hclose⟩⟩
    rw [renderItems, List.nil_append, hclose]
    exact .nil (refuses_closing hc _ _)
  | cons e es =>
    obtain ⟨hσe, hσes⟩ := List.forall_mem_append.1 hσ
    have hee := he e List.mem_cons_self
    obtain ⟨ts, hts, hr⟩ := repeats_items hc (fun d hd => he d (List.mem_cons_of_mem _ hd))
      (fun d hd => ih d (List.mem_cons_of_mem _ hd)) hσes
    obtain ⟨t, ht, hre⟩ := (ih e List.mem_cons_self).closed hee
      (closes_afterItem (closes_bracket hc rest)) hσe
    refine ⟨t :: ts, .cons ht hts, derives_enclosed.2 ⟨_, c :: rest, rfl, ?_, hclose⟩⟩
    rw [renderItems_append, (begins_render hee _).opens.skipBlanks]
    exact .cons hre hr

end Items

section Collections

variable {es : List Expr} (he : ∀ e ∈ es, Readable e) (ih : ∀ e ∈ es, Reproduced e)
include he ih

theorem reproduced_call {name : String} (hn : IsReadName name) :
    Reproduced (.call (.identifier name) es) := by
  refine reproduced_of_primary rfl fun leads rest _ hσ => ?_
  obtain ⟨hσn, hσe⟩ := List.forall_mem_append.1 hσ
  have hclear := (hσn _ List.mem_cons_self).conditional
  have hr : EndsName ('(' :: (renderItems [','] es ++ ')' :: rest)) := .inr ⟨_, .inl rfl⟩
  obtain ⟨ts, hts, hd⟩ := derives_printedItems (by decide : ')' ∈ [')', ']', '\x7d'])
    '(' he ih hσe
  have htext := text_between_append name.toList ('(' :: (renderItems [','] es ++ ')' :: rest))
  rw [String.ofList_toList] at htext
  rw [render, render, List.append_assoc, List.cons_append, List.append_assoc]
  exact ⟨_, hts.call htext, reads_call (noLiteral_name hn hr) hclear
    (acceptIdentifier_append hr hn.1) hd⟩

theorem reproduced_indexed {name : String} (hn : IsReadName name) :
    Reproduced (.indexed (.identifier name) es) := by
  refine reproduced_of_primary rfl fun leads rest _ hσ => ?_
  obtain ⟨hσn, hσe⟩ := List.forall_mem_append.1 hσ
  have hclear := (hσn _ List.mem_cons_self).conditional
  have hr : EndsName ('[' :: (renderItems [','] es ++ ']' :: rest)) := .inr ⟨_, .inr rfl⟩
  obtain ⟨ts, hts, hd⟩ := derives_printedItems (by decide : ']' ∈ [')', ']', '\x7d'])
    '[' he ih hσe
  have htext := text_between_append name.toList ('[' :: (renderItems [','] es ++ ']' :: rest))
  rw [String.ofList_toList] at htext
  rw [render, render, List.append_assoc, List.cons_append, List.append_assoc]
  exact ⟨_, hts.indexed htext, reads_indexed (noLiteral_name hn hr) hclear
    (acceptIdentifier_append hr hn.1) hd⟩

theorem reproduced_list : Reproduced (.list es) := by
  refine reproduced_of_primary rfl fun _ rest _ hσ => ?_
  obtain ⟨ts, hts, hd⟩ := derives_printedItems (by decide : ']' ∈ [')', ']', '\x7d'])
    '[' he ih hσ
  rw [render, List.cons_append, List.append_assoc]
  exact ⟨_, hts.list, reads_list hd⟩

theorem reproduced_set : Reproduced (.set es) := by
  refine reproduced_of_primary rfl fun _ rest _ hσ => ?_
  obtain ⟨ts, hts, hd⟩ := derives_printedItems (by decide : '\x7d' ∈ [')', ']', '\x7d'])
    '\x7b' he ih hσ
  rw [render, List.cons_append, List.append_assoc]
  exact ⟨_, hts.set, reads_set hd⟩

end Collections

/-! ## Conditionals -/

/-- A condition or its value. -/
abbrev part (e : Expr) : List Char := operand (conditionalPrecedence + 1) e

/-- The names of a part of a branch are clear. -/
abbrev PartClear (rest : List Char) (e : Expr) : Prop :=
  OperandClear (conditionalPrecedence + 1) true rest e

theorem reads_part {e : Expr} (he : Readable e) (ih : Reproduced e) {rest : List Char}
    (hs : Stops .assignment rest) (hσ : PartClear rest e) :
    ∃ t, t.Means e ∧ ReadsAs .assignment (skipBlanks (' ' :: (part e ++ rest))) t rest := by
  obtain ⟨t, ht, hr⟩ := ih.place he (m := conditionalPrecedence + 1) (by decide) (R := .assignment)
    (by decide) hs (fun _ => rfl) hσ
  have hu : Opens (part e ++ rest) :=
    (Begins.bracket (R := level e) fun _ => begins_render he rest).opens
  rw [skipBlanks_space, hu.skipBlanks]
  exact ⟨t, ht, hr⟩

theorem derives_printedBranch {c v : Expr} (hc : Readable c) (hv : Readable v) (ihc : Reproduced c)
    (ihv : Reproduced v) {rest : List Char} (hs : Stops .assignment rest)
    (hσc : PartClear (" then ".toList ++ (part v ++ rest)) c) (hσv : PartClear rest v) :
    ∃ x, MeansBranch x (c, v) ∧ Derives grammar ReadsAs Reads.branch
      (' ' :: (part c ++ (" then ".toList ++ (part v ++ rest)))) x rest := by
  obtain ⟨tc, htc, hrc⟩ := reads_part hc ihc (stops_word (by decide) _) hσc
  obtain ⟨tv, htv, hrv⟩ := reads_part hv ihv hs hσv
  exact ⟨(tc, tv), ⟨htc, htv⟩, derives_branch.2 ⟨_, _, hrc, rfl, hrv⟩⟩

/-- What is printed after a value: further branches, the last value and the rest. -/
theorem stops_more {o : Option Expr} {rest : List Char} (h : Closes rest) (bs : List (Expr × Expr)) :
    Stops .assignment (renderBranches false bs ++ (renderOtherwise false o ++ rest)) := by
  cases bs with
  | nil =>
    cases o with
    | none => exact h.stops _
    | some e =>
      have := stops_word (w := " else ".toList) (by decide) (render e ++ rest)
      rwa [← List.append_assoc] at this
  | cons b bs =>
    rw [renderBranches, List.append_assoc, List.append_assoc, List.append_assoc, List.append_assoc]
    exact stops_word (w := " elseif ".toList) (by decide) _

/-- A branch and what is printed after it. -/
theorem renderBranches_append (first : Bool) (c v : Expr) (bs : List (Expr × Expr))
    (rest : List Char) :
    renderBranches first ((c, v) :: bs) ++ rest =
      (if first then "if " else " elseif ").toList ++
        (part c ++ (" then ".toList ++ (part v ++ (renderBranches false bs ++ rest)))) := by
  rw [renderBranches, List.append_assoc, List.append_assoc, List.append_assoc, List.append_assoc]

theorem forall_branchSites {c v : Expr} {bs : List (Expr × Expr)} {rest : List Char}
    (h : ∀ σ ∈ branchSites rest ((c, v) :: bs), σ.Clear) :
    PartClear (" then ".toList ++ (part v ++ (renderBranches false bs ++ rest))) c ∧
      PartClear (renderBranches false bs ++ rest) v ∧ ∀ σ ∈ branchSites rest bs, σ.Clear := by
  obtain ⟨hcv, hbs⟩ := List.forall_mem_append.1 h
  obtain ⟨hc, hv⟩ := List.forall_mem_append.1 hcv
  refine ⟨?_, ?_, hbs⟩
  · rw [PartClear, OperandClear, Bool.or_true]
    exact hc
  · rw [PartClear, OperandClear, Bool.or_true]
    exact hv

section Branches

variable {o : Option Expr} {rest : List Char} (hrest : Closes rest)
include hrest

theorem refuses_furtherBranch :
    Refuses grammar Reads.furtherBranch (renderOtherwise false o ++ rest) := by
  refine refuses_spaced.2 (refuses_map.2 (refuses_seq.2 (.inl (refuses_token.2 ?_))))
  cases o with
  | none => exact hrest.not_word rfl
  | some e => rfl

theorem repeats_branches {bs : List (Expr × Expr)} (he : ∀ b ∈ bs, Readable b.1 ∧ Readable b.2)
    (ih : ∀ b ∈ bs, Reproduced b.1 ∧ Reproduced b.2)
    (hσ : ∀ σ ∈ branchSites (renderOtherwise false o ++ rest) bs, σ.Clear) :
    ∃ xs, List.Forall₂ MeansBranch xs bs ∧
      Repeats (Derives grammar ReadsAs Reads.furtherBranch) (Refuses grammar Reads.furtherBranch)
        (renderBranches false bs ++ (renderOtherwise false o ++ rest)) xs
        (renderOtherwise false o ++ rest) := by
  induction bs with
  | nil => exact ⟨[], .nil, .nil (refuses_furtherBranch hrest)⟩
  | cons b bs ihbs =>
    obtain ⟨c, v⟩ := b
    obtain ⟨hσc, hσv, hσbs⟩ := forall_branchSites hσ
    obtain ⟨xs, hxs, hr⟩ := ihbs (fun d hd => he d (List.mem_cons_of_mem _ hd))
      (fun d hd => ih d (List.mem_cons_of_mem _ hd)) hσbs
    obtain ⟨hc, hv⟩ := he (c, v) List.mem_cons_self
    obtain ⟨ihc, ihv⟩ := ih (c, v) List.mem_cons_self
    obtain ⟨x, hx, hd⟩ := derives_printedBranch hc hv ihc ihv (stops_more hrest bs) hσc hσv
    rw [renderBranches_append]
    exact ⟨x :: xs, .cons hx hxs, .cons (derives_furtherBranch.2 ⟨_, rfl, hd⟩) hr⟩

theorem derives_printedOtherwise (he : ∀ e ∈ o, Readable e) (ih : ∀ e ∈ o, Reproduced e)
    (hσ : ∀ σ ∈ otherwiseSites rest o, σ.Clear) :
    ∃ x, Option.Rel Means x o ∧
      Derives grammar ReadsAs (.optional Reads.lastValue) (renderOtherwise false o ++ rest) x rest := by
  cases o with
  | none =>
    refine ⟨none, .none, ?_, rfl⟩
    exact refuses_spaced.2 (refuses_map.2 (refuses_seq.2 (.inl (refuses_token.2
      (hrest.not_word rfl)))))
  | some e =>
    have hee := he e rfl
    obtain ⟨t, ht, hr⟩ := (ih e rfl).closed hee hrest hσ
    have hskip : skipBlanks (' ' :: (render e ++ rest)) = render e ++ rest := by
      rw [skipBlanks_space, (begins_render hee rest).opens.skipBlanks]
    exact ⟨some t, .some ht, derives_lastValue.2 ⟨_, rfl, hskip ▸ hr⟩⟩

end Branches

theorem reproduced_conditional {bs : List (Expr × Expr)} {o : Option Expr} (hne : bs ≠ [])
    (hb : ∀ b ∈ bs, Readable b.1 ∧ Readable b.2) (ho : ∀ e ∈ o, Readable e)
    (ihb : ∀ b ∈ bs, Reproduced b.1 ∧ Reproduced b.2) (iho : ∀ e ∈ o, Reproduced e) :
    Reproduced (.conditional bs o) := by
  intro leads rest hends _ hσ
  have hrest : Closes rest := hends.closes (Nat.le_refl _)
  cases bs with
  | nil => exact absurd rfl hne
  | cons b bs =>
    obtain ⟨c, v⟩ := b
    obtain ⟨hσb, hσo⟩ := List.forall_mem_append.1 hσ
    obtain ⟨hσc, hσv, hσbs⟩ := forall_branchSites hσb
    obtain ⟨hc, hv⟩ := hb (c, v) List.mem_cons_self
    obtain ⟨ihc, ihv⟩ := ihb (c, v) List.mem_cons_self
    obtain ⟨x, hx, hd⟩ := derives_printedBranch hc hv ihc ihv (stops_more hrest bs) hσc hσv
    obtain ⟨xs, hxs, hr⟩ := repeats_branches hrest (fun d hd => hb d (List.mem_cons_of_mem _ hd))
      (fun d hd => ihb d (List.mem_cons_of_mem _ hd)) hσbs
    obtain ⟨y, hy, hl⟩ := derives_printedOtherwise hrest ho iho hσo
    rw [render, List.append_assoc, renderBranches_append]
    exact ⟨_, Means.conditional hx hxs hy, partial_of_reads rfl (reads_conditional
      ⟨rfl, rfl, rfl, rfl⟩ (derives_conditional.2 ⟨_, _, _, x, xs, y, rfl, hd, hr, hl, rfl⟩))⟩

/-! ## All expressions -/

theorem reproduced {e : Expr} (h : Readable e)
    (hq : Everywhere (fun d => d.stacksQuotes = false) e) : Reproduced e := by
  induction e using Expr.induction with
  | integer n => exact reproduced_integer h
  | float x text => exact reproduced_float h
  | string s => exact reproduced_string s
  | boolean b => exact reproduced_boolean b
  | identifier name => exact reproduced_identifier (everywhere_identifier.1 h).1
  | operation op l r ihl ihr =>
    obtain ⟨⟨⟨ho, hne⟩, -⟩, hl, hr⟩ := everywhere_operation.1 h
    obtain ⟨-, hql, hqr⟩ := everywhere_operation.1 hq
    exact reproduced_operation (mem_printedOperators ho hne) hl hr (ihl hl hql) (ihr hr hqr)
  | prefixed op e ih =>
    obtain ⟨⟨ho, -⟩, he⟩ := everywhere_prefixed.1 h
    obtain ⟨hqo, hqe⟩ := everywhere_prefixed.1 hq
    exact reproduced_prefixed he (ih he hqe) ho hqo
  | postfixed op e ih =>
    obtain ⟨⟨ho, -⟩, he⟩ := everywhere_postfixed.1 h
    obtain rfl : op = "!" := ho
    exact reproduced_factorial he (ih he (everywhere_postfixed.1 hq).2)
  | call head args _ iha =>
    obtain ⟨⟨ho, -⟩, hh, ha⟩ := everywhere_call.1 h
    obtain ⟨name, rfl⟩ := isIdentifier_eq_true ho
    have hqa := (everywhere_call.1 hq).2.2
    exact reproduced_call ha (fun a hm => iha a hm (ha a hm) (hqa a hm))
      (everywhere_identifier.1 hh).1
  | indexed target indices _ iha =>
    obtain ⟨⟨ho, -⟩, hh, ha⟩ := everywhere_indexed.1 h
    obtain ⟨name, rfl⟩ := isIdentifier_eq_true ho
    have hqa := (everywhere_indexed.1 hq).2.2
    exact reproduced_indexed ha (fun a hm => iha a hm (ha a hm) (hqa a hm))
      (everywhere_identifier.1 hh).1
  | conditional branches otherwise ihb iho =>
    obtain ⟨⟨hne, -⟩, hb, ho⟩ := everywhere_conditional.1 h
    obtain ⟨-, hqb, hqo⟩ := everywhere_conditional.1 hq
    exact reproduced_conditional hne hb ho
      (fun b hm => ⟨(ihb b hm).1 (hb b hm).1 (hqb b hm).1, (ihb b hm).2 (hb b hm).2 (hqb b hm).2⟩)
      (fun e hm => iho e hm (ho e hm) (hqo e hm))
  | list items ih =>
    have ha := (everywhere_list.1 h).2
    have hqa := (everywhere_list.1 hq).2
    exact reproduced_list ha fun a hm => ih a hm (ha a hm) (hqa a hm)
  | set items ih =>
    have ha := (everywhere_set.1 h).2
    have hqa := (everywhere_set.1 hq).2
    exact reproduced_set ha fun a hm => ih a hm (ha a hm) (hqa a hm)
  | root items _ => exact absurd (Everywhere.self h).1 id

/-- A readable expression is read back if its printed text is legible. -/
theorem parseExpr_text {e : Expr} (h : Readable e) (hl : Legible e) :
    parseExpr e.text = .ok e := by
  have hnil : Closes [] := .inl rfl
  obtain ⟨t, ht, hr⟩ := (reproduced h hl.quotes).closed h hnil hl.names
  refine parseExpr_eq_ok.2 ⟨t, yields_iff.2 ?_, ht.2, ht.1⟩
  rw [text, String.toList_ofList]
  rw [List.append_nil] at hr
  have hopen : Opens (render e) := by
    have := (begins_render h []).opens
    rwa [List.append_nil] at this
  exact derives_spaced.2 (derives_keep.2 ⟨.between [] [], [], by rw [hopen.skipBlanks]; exact hr,
    rfl, rfl⟩)

end AlgebraBatch.Syntax
