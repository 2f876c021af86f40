import AlgebraBatch.Proofs.Syntax.Level

/-!
# How printed expressions begin

A readable expression is printed with an opening character first, and with a sign first only if it
is a sign's own operation or a looser one.
-/

namespace AlgebraBatch.Syntax

open AlgebraBatch.Text Peg AlgebraBatch.Expr

theorem isDecimalDigit_of_mem_toDigits {n : Nat} {c : Char} (h : c ∈ Nat.toDigits 10 n) :
    isDecimalDigit c = true :=
  isDecimalDigit_of_isDigit (Nat.isDigit_of_mem_toDigits (by decide) (by decide) h)

theorem render_integer {n : Int} (h : isNegativeInteger (.integer n) = false) :
    render (.integer n) = Nat.toDigits 10 n.natAbs := by
  rw [render, integerText, if_neg (of_decide_eq_false h)]

theorem precedence_integer {n : Int} (h : isNegativeInteger (.integer n) = false) :
    precedence (.integer n) = atomPrecedence := by
  rw [precedence, if_neg (of_decide_eq_false h)]

theorem integer_cons {n : Int} (h : isNegativeInteger (.integer n) = false) :
    ∃ c r, render (.integer n) = c :: r ∧ isDecimalDigit c = true := by
  rw [render_integer h]
  cases e : Nat.toDigits 10 n.natAbs with
  | nil => exact absurd e Nat.toDigits_ne_nil
  | cons c r => exact ⟨c, r, rfl, isDecimalDigit_of_mem_toDigits (e ▸ List.mem_cons_self)⟩

theorem float_cons {s : List Char} (h : Pattern.float.IsLexeme s) :
    ∃ c r, s = c :: r ∧ (isDecimalDigit c = true ∨ c = '.') := by
  change acceptFloat s = some [] at h
  cases s with
  | nil => cases h
  | cons c r =>
    refine ⟨c, r, rfl, ?_⟩
    rw [acceptFloat] at h
    split at h
    · next hc => exact .inl hc
    · split at h
      · next hc => exact .inr (eq_of_beq hc)
      · cases h

/-- A float that a text spells is not negative. -/
theorem isNegative_floatValue {text : String} (h : Pattern.float.IsLexeme text.toList) :
    (floatValue text).isNegative = false := by
  obtain ⟨c, r, ht, hc⟩ := float_cons h
  have hb : (c == 'b' || c == 'B') = false := by
    rcases hc with hc | rfl
    · cases hb : c == 'b' || c == 'B' with
      | false => rfl
      | true =>
        have letters : ∀ d ∈ ['b', 'B'], isDecimalDigit d = false := by decide
        rw [letters c (by simpa using hb)] at hc
        cases hc
    · rfl
  have hs : (String.ofList (text.toList.map fun c =>
      if c == 'b' || c == 'B' then 'e' else c)).toList =
      c :: r.map fun c => if c == 'b' || c == 'B' then 'e' else c := by
    rw [String.toList_ofList, ht, List.map_cons, hb]
    rfl
  unfold floatValue
  simp only
  split
  · next x hx => exact Numeral.isNegative_readFloat hs hc hx
  · rfl

/-- The precedence of a number that a text spells. -/
theorem precedence_float {x : Binary64} {text : String}
    (h : HasShape IsReadName (.float x text)) : precedence (.float x text) = atomPrecedence := by
  rw [precedence, h.2, isNegative_floatValue h.1]
  rfl

theorem isIdentifier_eq_true {e : Expr} (h : e.isIdentifier = true) :
    ∃ name, e = .identifier name := by
  cases e with
  | identifier name => exact ⟨name, rfl⟩
  | _ => cases h

theorem prefixOperator_cases {op : String} (h : op ∈ prefixOperators.map Prod.fst) :
    op = "not" ∨ op = "-" ∨ op = "+" ∨ op = "'" ∨ op = "''" := by
  simpa [prefixOperators] using h

theorem level_operand_rank_le (op : String) {l : Expr} (r : Expr)
    (h : leftMinimum op ≤ precedence l) : (level l).rank ≤ (level (.operation op l r)).rank := by
  refine (level_rank_le h).trans (ruleAt_rank_anti ?_)
  unfold leftMinimum
  split
  · exact Nat.le_succ _
  · exact Nat.le_refl _

/-! ## The first character -/

/-- How a text begins in which `R` reads an expression: with an opening character, which is no sign
if `R` is tighter than the signs. -/
structure Begins (R : Rule) (s : List Char) : Prop where
  opens : Opens s
  sign : R.rank < Rule.signed.rank → Pattern.sign.accept s = none

theorem Begins.of_cons {R : Rule} {c : Char} {r : List Char} (hc : IsOpening c)
    (hs : c ∉ ['\'', '-', '+']) : Begins R (c :: r) := by
  refine ⟨⟨c, r, rfl, hc⟩, fun _ => ?_⟩
  simp only [List.mem_cons, List.not_mem_nil, or_false, not_or] at hs
  change acceptAny _ (c :: r) = none
  simp [acceptAny, Ne.symm hs.1, Ne.symm hs.2.1, Ne.symm hs.2.2]

theorem Begins.of_signed {R : Rule} {c : Char} {r : List Char} (hc : IsOpening c)
    (hR : Rule.signed.rank ≤ R.rank) : Begins R (c :: r) :=
  ⟨⟨c, r, rfl, hc⟩, fun h => absurd h (Nat.not_lt.2 hR)⟩

theorem Begins.mono {Q R : Rule} {s : List Char} (h : Begins Q s) (hQ : Q.rank ≤ R.rank) :
    Begins R s :=
  ⟨h.opens, fun hR => h.sign (Nat.lt_of_le_of_lt hQ hR)⟩

theorem Begins.digit {R : Rule} {c : Char} {r : List Char} (h : isDecimalDigit c = true) :
    Begins R (c :: r) := by
  refine .of_cons (.inr (.inl h)) fun hc => ?_
  have all : ∀ c ∈ ['\'', '-', '+'], isDecimalDigit c = false := by decide
  rw [all c hc] at h
  cases h

theorem Begins.name {R : Rule} {name : String} (h : IsReadName name) (r : List Char) :
    Begins R (name.toList ++ r) := by
  obtain ⟨c, t, ht, hc, -⟩ := identifier_cons h.1
  rw [ht]
  refine .of_cons (.inl hc) fun hs => ?_
  have all : ∀ c ∈ ['\'', '-', '+'], isNameStart c = false := by decide
  rw [all c hs] at hc
  cases hc

/-- A text in parentheses or one that begins well already. -/
theorem Begins.bracket {R : Rule} {needed : Bool} {s r : List Char}
    (h : needed = false → Begins R (s ++ r)) : Begins R (bracket needed s ++ r) := by
  cases needed with
  | false => exact h rfl
  | true => exact .of_cons (.inr (.inr (by decide))) (by decide)

theorem begins_render {e : Expr} (h : Readable e) :
    ∀ rest, Begins (level e) (render e ++ rest) := by
  induction e using Expr.induction with
  | integer n =>
    intro rest
    obtain ⟨c, r, hr, hc⟩ := integer_cons (everywhere_integer.1 h).2
    rw [hr]
    exact .digit hc
  | float x text =>
    intro rest
    obtain ⟨⟨hl, -⟩, -⟩ := everywhere_float.1 h
    obtain ⟨c, r, ht, hc⟩ := float_cons hl
    rw [render, ht]
    rcases hc with hc | rfl
    · exact .digit hc
    · exact .of_cons (.inr (.inr (by decide))) (by decide)
  | string s => exact fun rest => .of_cons (.inr (.inr (by decide))) (by decide)
  | boolean b =>
    intro rest
    cases b with
    | false => exact .of_cons (.inl (by decide)) (by decide)
    | true => exact .of_cons (.inl (by decide)) (by decide)
  | identifier name => exact fun rest => .name (everywhere_identifier.1 h).1 rest
  | operation op l r ihl _ =>
    intro rest
    obtain ⟨hd, hl, -⟩ := everywhere_operation.1 h
    rw [render, List.append_assoc, List.append_assoc]
    refine .bracket fun hb => (ihl hl _).mono ?_
    exact level_operand_rank_le op r (Nat.not_lt.1 (of_decide_eq_false hb))
  | prefixed op e _ =>
    intro rest
    obtain ⟨⟨hd, -⟩, -⟩ := everywhere_prefixed.1 h
    rw [render]
    obtain rfl | rfl | rfl | rfl | rfl := prefixOperator_cases hd
    · exact .of_cons (.inl (by decide)) (by decide)
    all_goals refine .of_signed (.inr (.inr (by decide))) ?_
    all_goals rw [level_prefixed]
    all_goals decide
  | postfixed op e ih =>
    intro rest
    obtain ⟨-, he⟩ := everywhere_postfixed.1 h
    rw [render, List.append_assoc]
    refine .bracket fun hb => (ih he _).mono ?_
    have hm : postfixPrecedence + 1 ≤ precedence e := Nat.not_lt.1 (of_decide_eq_false hb)
    exact (level_rank_le hm).trans (ruleAt_rank_anti (Nat.le_succ _))
  | call head args _ _ =>
    intro rest
    obtain ⟨⟨hd, -⟩, hh, -⟩ := everywhere_call.1 h
    obtain ⟨name, rfl⟩ := isIdentifier_eq_true hd
    rw [render, render, List.append_assoc]
    exact .name (everywhere_identifier.1 hh).1 _
  | indexed target indices _ _ =>
    intro rest
    obtain ⟨⟨hd, -⟩, hh, -⟩ := everywhere_indexed.1 h
    obtain ⟨name, rfl⟩ := isIdentifier_eq_true hd
    rw [render, render, List.append_assoc]
    exact .name (everywhere_identifier.1 hh).1 _
  | conditional branches otherwise _ _ =>
    intro rest
    obtain ⟨⟨hd, -⟩, -⟩ := everywhere_conditional.1 h
    cases branches with
    | nil => exact absurd rfl hd
    | cons b bs => exact .of_cons (.inl (by decide)) (by decide)
  | list items _ => exact fun rest => .of_cons (.inr (.inr (by decide))) (by decide)
  | set items _ => exact fun rest => .of_cons (.inr (.inr (by decide))) (by decide)
  | root items _ => exact absurd (Everywhere.self h).1 id

end AlgebraBatch.Syntax
