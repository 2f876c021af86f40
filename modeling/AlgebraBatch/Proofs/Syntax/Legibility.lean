import AlgebraBatch.Proofs.Syntax.Alignment

/-!
# Legibility

All rules keep to the alignment of a text with a printed expression. So an expression that is read
back from its printed text is legible.
-/

namespace AlgebraBatch.Syntax

open AlgebraBatch.Text Peg AlgebraBatch.Expr AlgebraBatch.Syntax.Tree

variable {s s' rest : List Char} {t : Tree} {e : Expr} {leads : Bool}

/-! ## Brackets -/

/-- Items are read as they were meant, before `rest`. -/
structure LegibleItems (rest : List Char) (es : List Expr) : Prop where
  quotes : ∀ e ∈ es, Everywhere (fun d => d.stacksQuotes = false) e
  names : ∀ σ ∈ itemSites rest es, σ.Clear

theorem LegibleItems.nil (rest : List Char) : LegibleItems rest [] := ⟨nofun, nofun⟩

theorem LegibleItems.cons {es : List Expr} (h : LegibleBefore true (afterItem es rest) e)
    (hs : LegibleItems rest es) : LegibleItems rest (e :: es) where
  quotes := List.forall_mem_cons.2 ⟨h.quotes, hs.quotes⟩
  names := List.forall_mem_append.2 ⟨h.names, hs.names⟩

theorem aligned_item (h : Aligned .assignment s t s') (heq : t.expr.equal e = true)
    (he : Readable e) (hr : Closes rest) (hcore : core s = core (render e ++ rest)) :
    core s' = core rest ∧ LegibleBefore true rest e :=
  h heq he (hr.stops .primary).boundary hcore fun _ => .inl (by decide)

section Items

variable {c : Char} (hc : c ∈ [')', ']', '\x7d'])
include hc

theorem aligned_furtherItems {ts : List Tree}
    (h : Repeats (Derives grammar AlignedBy Reads.commaItem) (Refuses grammar Reads.commaItem)
      s ts s') :
    ∀ {es : List Expr}, equalItems (exprItems ts) es = true → (∀ e ∈ es, Readable e) →
      core s = core (afterItem es (c :: rest)) →
      core s' = core (c :: rest) ∧ LegibleItems (c :: rest) es := by
  induction h with
  | nil =>
    intro es heq _ hcore
    obtain rfl := equalItems_nil heq
    exact ⟨hcore, .nil _⟩
  | cons hx _ ih =>
    intro es heq he hcore
    obtain ⟨s₂, hcomma, -, ht⟩ := derives_commaItem.1 hx
    obtain ⟨d, ds, rfl, heqd, heqs⟩ := equalItems_cons heq
    obtain ⟨hd, hds⟩ := List.forall_mem_cons.1 he
    have hs₂ : core (skipBlanks s₂) = core (render d ++ afterItem ds (c :: rest)) := by
      rw [← core_skipBlanks, hcomma] at hcore
      rw [core_skipBlanks, core_of_cons hcore, renderItems_append]
    have hclose : Closes (afterItem ds (c :: rest)) := closes_afterItem (closes_bracket hc rest)
    obtain ⟨hc₁, hfirst⟩ := aligned_item ht heqd hd hclose hs₂
    obtain ⟨hc₂, hmore⟩ := ih heqs hds hc₁
    exact ⟨hc₂, hmore.cons hfirst⟩

theorem aligned_enclosed {opening : Char} {ts : List Tree} {es : List Expr}
    (h : Derives grammar AlignedBy (Reads.enclosed opening c) s ts s')
    (heq : equalItems (exprItems ts) es = true) (he : ∀ e ∈ es, Readable e)
    (hs : s = opening :: (renderItems [','] es ++ c :: rest)) :
    core s' = core rest ∧ LegibleItems (c :: rest) es := by
  obtain ⟨s₁, s₂, hopening, hi, hclose⟩ := derives_enclosed.1 h
  obtain rfl : s₁ = renderItems [','] es ++ c :: rest := (List.cons.inj (hopening.symm.trans hs)).2
  have hend : core s₂ = core (c :: s') := by rw [← core_skipBlanks, hclose]
  suffices haligned : core s₂ = core (c :: rest) ∧ LegibleItems (c :: rest) es from
    ⟨core_of_cons (hend.symm.trans haligned.1), haligned.2⟩
  cases hi with
  | nil =>
    obtain rfl := equalItems_nil heq
    exact ⟨core_skipBlanks _, .nil _⟩
  | cons ht hm =>
    obtain ⟨d, ds, rfl, heqd, heqs⟩ := equalItems_cons heq
    obtain ⟨hd, hds⟩ := List.forall_mem_cons.1 he
    have hcore : core (skipBlanks (renderItems [','] (d :: ds) ++ c :: rest)) =
        core (render d ++ afterItem ds (c :: rest)) := by
      rw [core_skipBlanks, renderItems_append]
    have hclose : Closes (afterItem ds (c :: rest)) := closes_afterItem (closes_bracket hc rest)
    obtain ⟨hc₁, hfirst⟩ := aligned_item ht.2 heqd hd hclose hcore
    obtain ⟨hc₂, hmore⟩ := aligned_furtherItems hc hm heqs hds hc₁
    exact ⟨hc₂, hmore.cons hfirst⟩

end Items

/-- A name and what stands in the brackets right after it. -/
theorem aligned_headed {name : String} {opening closing : Char} {s₁ : List Char} {ts : List Tree}
    {es : List Expr} (hi : Pattern.identifier.accept s = some s₁)
    (hd : Derives grammar AlignedBy (Reads.enclosed opening closing) s₁ ts s')
    (hc : Refuses grammar Reads.conditional s) (hopening : opening = '(' ∨ opening = '[')
    (hclosing : closing ∈ [')', ']', '\x7d']) (hn : Readable (.identifier name))
    (he : ∀ e ∈ es, Readable e) (heq : equalItems (exprItems ts) es = true)
    (hcore : core s =
      core (name.toList ++ opening :: (renderItems [','] es ++ closing :: rest)))
    (hled : Led leads .primary s) :
    core s' = core rest ∧ LegibleItems (closing :: rest) es ∧
      LegibleBefore leads (opening :: (renderItems [','] es ++ closing :: rest))
        (.identifier name) := by
  have hends : EndsName (opening :: (renderItems [','] es ++ closing :: rest)) := by
    rcases hopening with rfl | rfl
    · exact .inr ⟨_, .inl rfl⟩
    · exact .inr ⟨_, .inr rfl⟩
  obtain ⟨hs, hs₁⟩ := eq_of_acceptIdentifier hi (everywhere_identifier.1 hn).1 hends hcore
  obtain ⟨hend, hl⟩ := aligned_enclosed hclosing hd heq he hs₁
  refine ⟨hend, hl, everywhere_identifier.2 rfl, List.forall_mem_singleton.2 ?_⟩
  rw [← hs]
  exact clear_name hc hled

theorem aligned_call (h : Derives grammar AlignedBy Reads.call s t s')
    (hc : Refuses grammar Reads.conditional s) : Aligned .primary s t s' := by
  intro e leads rest heq he _ hcore hled
  obtain ⟨s₁, ts, hi, hd, rfl⟩ := derives_headed.1 h
  obtain ⟨head, args, rfl, heqh, heqa⟩ := equal_call heq
  obtain rfl := equal_identifier heqh
  obtain ⟨-, hn, ha⟩ := everywhere_call.1 he
  rw [render, render, List.append_assoc, List.cons_append, List.append_assoc] at hcore
  obtain ⟨hend, hl, hh⟩ :=
    aligned_headed hi hd hc (.inl rfl) (by decide) hn ha heqa hcore hled
  exact ⟨hend, everywhere_call.2 ⟨rfl, hh.quotes, hl.quotes⟩,
    List.forall_mem_append.2 ⟨hh.names, hl.names⟩⟩

theorem aligned_indexed (h : Derives grammar AlignedBy Reads.indexed s t s')
    (hc : Refuses grammar Reads.conditional s) : Aligned .primary s t s' := by
  intro e leads rest heq he _ hcore hled
  obtain ⟨s₁, ts, hi, hd, rfl⟩ := derives_headed.1 h
  obtain ⟨target, indices, rfl, heqt, heqi⟩ := equal_indexed heq
  obtain rfl := equal_identifier heqt
  obtain ⟨-, hn, ha⟩ := everywhere_indexed.1 he
  rw [render, render, List.append_assoc, List.cons_append, List.append_assoc] at hcore
  obtain ⟨hend, hl, ht⟩ :=
    aligned_headed hi hd hc (.inr rfl) (by decide) hn ha heqi hcore hled
  exact ⟨hend, everywhere_indexed.2 ⟨rfl, ht.quotes, hl.quotes⟩,
    List.forall_mem_append.2 ⟨ht.names, hl.names⟩⟩

/-- A list or a set begins where it is printed. -/
theorem aligned_brackets {opening closing : Char} {ts : List Tree} {es : List Expr}
    (h : Derives grammar AlignedBy (Reads.enclosed opening closing) s ts s')
    (ho : isPadding opening = false) (hclosing : closing ∈ [')', ']', '\x7d'])
    (heq : equalItems (exprItems ts) es = true) (he : ∀ e ∈ es, Readable e)
    (hcore : core s = core (opening :: (renderItems [','] es ++ [closing]) ++ rest)) :
    core s' = core rest ∧ LegibleItems (closing :: rest) es := by
  refine aligned_enclosed hclosing h heq he ?_
  obtain ⟨s₁, -, rfl, -, -⟩ := derives_enclosed.1 h
  have hs : IsSolid (opening :: s₁) := ho
  rw [List.cons_append, List.append_assoc] at hcore
  exact eq_of_core hcore hs ho

theorem aligned_list (h : Derives grammar AlignedBy Reads.list s t s') :
    Aligned .primary s t s' := by
  intro e leads rest heq he _ hcore _
  obtain ⟨ts, hd, rfl⟩ := derives_bracketed.1 h
  obtain ⟨items, rfl, heqi⟩ := equal_list heq
  obtain ⟨hend, hl⟩ := aligned_brackets hd (by decide) (by decide) heqi (everywhere_list.1 he).2
    hcore
  exact ⟨hend, everywhere_list.2 ⟨rfl, hl.quotes⟩, hl.names⟩

theorem aligned_set (h : Derives grammar AlignedBy Reads.set s t s') : Aligned .primary s t s' := by
  intro e leads rest heq he _ hcore _
  obtain ⟨ts, hd, rfl⟩ := derives_bracketed.1 h
  obtain ⟨items, rfl, heqi⟩ := equal_set heq
  obtain ⟨hend, hl⟩ := aligned_brackets hd (by decide) (by decide) heqi (everywhere_set.1 he).2
    hcore
  exact ⟨hend, everywhere_set.2 ⟨rfl, hl.quotes⟩, hl.names⟩

/-- Parentheses are left out of account, and what is in them begins anew. -/
theorem aligned_group (h : Derives grammar AlignedBy Reads.group s t s') :
    Aligned .primary s t s' := by
  intro e leads rest heq he hb hcore _
  obtain ⟨s₁, s₂, rfl, ⟨-, ht⟩, hclose⟩ := derives_group.1 h
  rw [core_cons rfl, ← core_skipBlanks] at hcore
  obtain ⟨hend, hl⟩ := ht heq he hb hcore fun _ => .inl (by decide)
  rw [← core_skipBlanks, hclose, core_cons rfl] at hend
  exact ⟨hend, hl⟩

/-! ## Conditionals -/

/-- After a word there is what is printed after it. -/
theorem after_word {w u : List Char} (h : acceptWord w (skipBlanks s) = some s') (hw : IsSolid w)
    (hcore : core s = core (' ' :: (w ++ ' ' :: u))) : core s' = core u := by
  rw [core_of_skipBlanks (acceptWord_eq_some.1 h).1 hw, core_cons rfl, (hw.append _).core] at hcore
  rw [List.append_cancel_left hcore, core_cons rfl]

/-- After the word that begins a conditional there is what is printed after it. -/
theorem after_if {u : List Char} (h : Pattern.ifWord.accept s = some s')
    (hcore : core s = core ("if ".toList ++ u)) : core s' = core u := by
  have hs := (acceptWord_eq_some.1 h).1
  have hsolid (r : List Char) : IsSolid ('i' :: r) := (by decide : isPadding 'i' = false)
  rw [hs] at hcore
  have heq : "if".toList ++ s' = "if".toList ++ ' ' :: u :=
    eq_of_core hcore (hsolid _) (hsolid _)
  rw [List.append_cancel_left heq, core_cons rfl]

theorem aligned_branch {x : Tree × Tree} {c v : Expr}
    (h : Derives grammar AlignedBy Reads.branch s x s') (heqc : x.1.expr.equal c = true)
    (heqv : x.2.expr.equal v = true) (hc : Readable c) (hv : Readable v) (hb : IsBoundary rest)
    (hcore : core s = core (part c ++ (" then ".toList ++ (part v ++ rest)))) :
    core s' = core rest ∧
      LegibleBefore true (closing (decide (precedence c < conditionalPrecedence + 1)) ++
        (" then ".toList ++ (part v ++ rest))) c ∧
      LegibleBefore true (closing (decide (precedence v < conditionalPrecedence + 1)) ++ rest)
        v := by
  obtain ⟨s₁, s₂, hx, hthen, hy⟩ := derives_branch.1 h
  have hspace : IsBoundary (" then ".toList ++ (part v ++ rest)) := (by decide : ' ' ∈ boundaries)
  rw [← core_skipBlanks] at hcore
  obtain ⟨hs₁, hlc⟩ := hx.2.loose heqc hc hspace hcore
  have hs₂ := after_word hthen (by decide) hs₁
  rw [← core_skipBlanks] at hs₂
  obtain ⟨hs', hlv⟩ := hy.2.loose heqv hv hb hs₂
  exact ⟨hs', hlc, hlv⟩

/-- Branches are read as they were meant, before `rest`. -/
structure LegibleBranches (rest : List Char) (bs : List (Expr × Expr)) : Prop where
  quotes : ∀ b ∈ bs, Everywhere (fun d => d.stacksQuotes = false) b.1 ∧
    Everywhere (fun d => d.stacksQuotes = false) b.2
  names : ∀ σ ∈ branchSites rest bs, σ.Clear

theorem isBoundary_branches (hb : IsBoundary rest) (bs : List (Expr × Expr)) :
    IsBoundary (renderBranches false bs ++ rest) := by
  cases bs with
  | nil => exact hb
  | cons b bs => exact (by decide : ' ' ∈ boundaries)

theorem isBoundary_otherwise (hb : IsBoundary rest) (o : Option Expr) :
    IsBoundary (renderOtherwise false o ++ rest) := by
  cases o with
  | none => exact hb
  | some e => exact (by decide : ' ' ∈ boundaries)

/-- A branch with the further ones. -/
theorem LegibleBranches.cons {c v : Expr} {bs : List (Expr × Expr)}
    (hc : LegibleBefore true (closing (decide (precedence c < conditionalPrecedence + 1)) ++
      (" then ".toList ++ (part v ++ (renderBranches false bs ++ rest)))) c)
    (hv : LegibleBefore true (closing (decide (precedence v < conditionalPrecedence + 1)) ++
      (renderBranches false bs ++ rest)) v)
    (hs : LegibleBranches rest bs) : LegibleBranches rest ((c, v) :: bs) where
  quotes := List.forall_mem_cons.2 ⟨⟨hc.quotes, hv.quotes⟩, hs.quotes⟩
  names := List.forall_mem_append.2 ⟨List.forall_mem_append.2 ⟨hc.names, hv.names⟩, hs.names⟩

theorem aligned_furtherBranches {xs : List (Tree × Tree)}
    (h : Repeats (Derives grammar AlignedBy Reads.furtherBranch)
      (Refuses grammar Reads.furtherBranch) s xs s') (hb : IsBoundary rest) :
    ∀ {bs : List (Expr × Expr)}, equalBranches (exprBranches xs) bs = true →
      (∀ b ∈ bs, Readable b.1 ∧ Readable b.2) → core s = core (renderBranches false bs ++ rest) →
      core s' = core rest ∧ LegibleBranches rest bs := by
  induction h with
  | nil =>
    intro bs heq _ hcore
    obtain rfl := equalBranches_nil heq
    exact ⟨hcore, nofun, nofun⟩
  | cons hx _ ih =>
    intro bs heq he hcore
    obtain ⟨s₁, hword, hd⟩ := derives_furtherBranch.1 hx
    obtain ⟨c, v, more, rfl, heqc, heqv, heqm⟩ := equalBranches_cons heq
    obtain ⟨⟨hc, hv⟩, hmore⟩ := List.forall_mem_cons.1 he
    rw [renderBranches_append] at hcore
    have hs₁ := after_word hword (by decide) hcore
    obtain ⟨hs₂, hlc, hlv⟩ := aligned_branch hd heqc heqv hc hv (isBoundary_branches hb more) hs₁
    obtain ⟨hs', hl⟩ := ih heqm hmore hs₂
    exact ⟨hs', hl.cons hlc hlv⟩

theorem aligned_otherwise {x : Option Tree} {o : Option Expr}
    (h : Derives grammar AlignedBy (.optional Reads.lastValue) s x s')
    (heq : equalOption (exprOption x) o = true) (he : ∀ e ∈ o, Readable e) (hb : IsBoundary rest)
    (hcore : core s = core (renderOtherwise false o ++ rest)) :
    core s' = core rest ∧ (∀ e ∈ o, Everywhere (fun d => d.stacksQuotes = false) e) ∧
      ∀ σ ∈ otherwiseSites rest o, σ.Clear := by
  cases x with
  | none =>
    obtain ⟨-, rfl⟩ := h
    cases o with
    | none => exact ⟨hcore, nofun, nofun⟩
    | some e => cases heq
  | some t =>
    obtain ⟨s₁, hword, -, ht⟩ := derives_lastValue.1 h
    cases o with
    | none => cases heq
    | some e =>
      have hs₁ : core s₁ = core (render e ++ rest) := after_word hword (by decide) hcore
      rw [← core_skipBlanks] at hs₁
      obtain ⟨hs', hl⟩ := ht heq (he e rfl) hb hs₁ fun _ => .inl (by decide)
      refine ⟨hs', ?_, hl.names⟩
      rintro _ ⟨⟩
      exact hl.quotes

theorem aligned_conditional (h : Derives grammar AlignedBy Reads.conditional s t s') :
    Aligned .primary s t s' := by
  intro e leads rest heq he hb hcore _
  obtain ⟨s₁, s₂, s₃, first, more, otherwise, hif, hf, hm, ho, rfl⟩ := derives_conditional.1 h
  obtain ⟨bs, o, rfl, heqb, heqo⟩ := equal_conditional heq
  obtain ⟨c, v, bs, rfl, heqc, heqv, heqm⟩ := equalBranches_cons heqb
  obtain ⟨-, heb, heo⟩ := everywhere_conditional.1 he
  obtain ⟨⟨hc, hv⟩, hebs⟩ := List.forall_mem_cons.1 heb
  rw [render, List.append_assoc, renderBranches_append] at hcore
  have hs₁ := after_if hif hcore
  have hrest := isBoundary_otherwise hb o
  obtain ⟨hs₂, hlc, hlv⟩ := aligned_branch hf heqc heqv hc hv (isBoundary_branches hrest bs) hs₁
  obtain ⟨hs₃, hl⟩ := aligned_furtherBranches hm hrest heqm hebs hs₂
  obtain ⟨hs', hqo, hno⟩ := aligned_otherwise ho heqo heo hb hs₃
  have hb := hl.cons hlc hlv
  exact ⟨hs', everywhere_conditional.2 ⟨rfl, hb.quotes, hqo⟩,
    List.forall_mem_append.2 ⟨hb.names, hno⟩⟩

/-! ## All rules -/

theorem aligned_primary (h : Derives grammar AlignedBy Reads.primary s t s') :
    Aligned .primary s t s' := by
  rcases h with h | ⟨-, h | ⟨-, h | ⟨-, h | ⟨-, h | ⟨hc, h | ⟨-, h | ⟨-, h | ⟨-, h | ⟨-, h |
    ⟨-, h⟩⟩⟩⟩⟩⟩⟩⟩⟩⟩
  · obtain ⟨ha, rfl⟩ := derives_atom.1 h
    exact aligned_float ha
  · obtain ⟨ha, rfl⟩ := derives_atom.1 h
    exact aligned_integer ha
  · obtain ⟨ha, rfl⟩ := derives_atom.1 h
    exact aligned_string ha
  · obtain ⟨ha, rfl⟩ := derives_atom.1 h
    exact aligned_boolean ha
  · exact aligned_conditional h
  · exact aligned_call h hc
  · exact aligned_indexed h hc
  · obtain ⟨ha, rfl⟩ := derives_atom.1 h
    exact aligned_identifier ha hc
  · exact aligned_list h
  · exact aligned_set h
  · exact aligned_group h

theorem aligned_of_reads {R : Rule} (h : ReadsAs R s t s') : Aligned R s t s' := by
  refine rule_induction (motive := Aligned) ?_ h
  intro R s t s' h
  change Derives grammar AlignedBy (Reads.body R) s t s' at h
  cases R with
  | assignment => exact aligned_rightChain (R := .assignment) (.inl ⟨rfl, rfl⟩) rfl h
  | disjunction => exact aligned_chain (R := .disjunction) rfl rfl (derives_leftChain.1 h).1
  | conjunction => exact aligned_chain (R := .conjunction) rfl rfl (derives_leftChain.1 h).1
  | negation =>
    rcases h with h | ⟨hn, h⟩
    · exact aligned_prefixed (.inr ⟨rfl, Nat.le_refl _⟩) h
    · exact fun _ _ _ heq he hb hc _ => h.2 heq he hb hc fun _ => .inr hn
  | relation => exact aligned_chain (R := .relation) rfl rfl (derives_leftChain.1 h).1
  | sum => exact aligned_chain (R := .sum) rfl rfl (derives_leftChain.1 h).1
  | product => exact aligned_chain (R := .product) rfl rfl (derives_leftChain.1 h).1
  | signed =>
    rcases h with h | ⟨-, h⟩
    · exact aligned_prefixed (.inl rfl) h
    · exact Aligned.of_tighter (R := .signed) h.2 nofun
  | dotProduct => exact aligned_chain (R := .dotProduct) rfl rfl (derives_leftChain.1 h).1
  | exponent =>
    rcases h with h | ⟨-, h⟩
    · exact aligned_prefixed (.inl rfl) h
    · exact Aligned.of_tighter (R := .exponent) h.2 nofun
  | power => exact aligned_rightChain (R := .power) (.inr ⟨rfl, rfl⟩) rfl h
  | factorial => exact aligned_factorial h
  | primary => exact aligned_primary h

/-- An expression that is read back from its text is legible. -/
theorem legible_of_parseExpr {e' : Expr} (he : Readable e) (h : parseExpr e.text = .ok e')
    (heq : e'.equal e = true) : Legible e := by
  obtain ⟨t, hy, -, rfl⟩ := parseExpr_eq_ok.1 h
  obtain ⟨s', hr, -⟩ := yields_root.1 hy
  rw [text, String.toList_ofList] at hr
  have hnil : IsBoundary [] := trivial
  have hcore : core (skipBlanks (render e)) = core (render e ++ []) := by
    rw [core_skipBlanks, List.append_nil]
  obtain ⟨-, hl⟩ := aligned_of_reads hr heq he hnil hcore fun _ => .inl (by decide)
  exact ⟨hl.quotes, hl.names⟩

end AlgebraBatch.Syntax
