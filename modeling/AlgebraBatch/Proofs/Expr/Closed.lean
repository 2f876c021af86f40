import AlgebraBatch.Content.Printer
import AlgebraBatch.Proofs.Expr.Walk
import AlgebraBatch.Proofs.Syntax.FloatLexeme
import AlgebraBatch.Proofs.Syntax.WellFormed
import AlgebraBatch.Proofs.Text.Parts

/-!
# Expressions are closed texts

What is printed for an expression that a text may mean is closed: its literals and brackets are,
commas stand in brackets only, and no operator begins a comment or ends a statement. The proof is an
induction on the expression with a lemma for each piece that is printed between its parts.
-/

namespace AlgebraBatch.Expr

open AlgebraBatch.Text AlgebraBatch.Syntax AlgebraBatch.Text.Reader

variable {l r : List Char}

/-! ## Atoms -/

/-- A class of characters without the special ones. -/
theorem not_special_of_class {p : Char → Bool} (hp : ∀ c ∈ specials, p c = false) {c : Char}
    (h : p c = true) : c ∉ specials := by
  intro hc
  rw [hp c hc] at h
  cases h

theorem isDecimalDigit_not_special {c : Char} (h : isDecimalDigit c = true) : c ∉ specials :=
  not_special_of_class (by decide) h

theorem closed_digits (n : Nat) : Closed (Nat.toDigits 10 n) := by
  refine closed_of_plain (Nat.toDigits_ne_nil) fun c hc => isDecimalDigit_not_special ?_
  exact isDecimalDigit_of_isDigit (Nat.isDigit_of_mem_toDigits (by decide) (by decide) hc)

theorem closed_integerText (n : Int) : Closed (integerText n) := by
  have hminus : Closed ['-'] := by decide
  unfold integerText
  split
  · exact hminus.append (closed_digits _)
  · exact closed_digits _

theorem closed_float {s : List Char} (h : Pattern.float.IsLexeme s) : Closed s := by
  obtain ⟨whole, fraction, exponent, rfl, hd⟩ := Numeral.isDecimal_of_acceptFloat h
  rw [List.append_nil]
  have plain : ∀ c ∈ ['.', '+', '-', 'e', 'E', 'b', 'B'], c ∉ specials := by decide
  refine closed_of_plain ?_ fun c hc => ?_
  · have hne := hd.hasDigits
    intro he
    simp only [List.append_eq_nil_iff] at he
    simp [he] at hne
  · rcases hd.mem hc with hc | hc | hc
    · exact isDecimalDigit_not_special hc
    · exact plain c (List.mem_append_left ['e', 'E', 'b', 'B'] hc)
    · exact plain c (List.mem_append_right ['.', '+', '-'] hc)

theorem closed_name {s : List Char} (h : Pattern.identifier.IsLexeme s) : Closed s := by
  obtain ⟨c, t, rfl, -, hs⟩ := identifier_cons h
  exact closed_of_plain (List.cons_ne_nil _ _) fun d hd =>
    not_special_of_class (by decide) (hs d hd)

/-! ## Brackets and operators -/

theorem closed_bracket (h : Closed l) (needed : Bool) : Closed (bracket needed l) := by
  unfold bracket
  split
  · exact closed_bracketed rfl (h.within false _)
  · exact h

/-- An operator is left outside of literals and brackets, perhaps right after a slash. -/
theorem scan_operatorText {op : String} (h : op ∈ binaryOperators.map Prod.fst) :
    ∃ b, fresh.scan (operatorText op) = some ⟨.code b, []⟩ := by
  have all : ∀ op ∈ binaryOperators.map Prod.fst,
      fresh.scan (operatorText op) = some ⟨.code false, []⟩ ∨
        fresh.scan (operatorText op) = some ⟨.code true, []⟩ := by decide
  rcases all op h with h | h
  · exact ⟨false, h⟩
  · exact ⟨true, h⟩

theorem closed_operation {op : String} (h : op ∈ binaryOperators.map Prod.fst) (hl : Closed l)
    (hr : Closed r) : Closed (l ++ operatorText op ++ r) := by
  obtain ⟨b, hop⟩ := scan_operatorText h
  intro b'
  rw [List.append_assoc, scan_append (hl b'), scan_append hop]
  exact hr b

theorem closed_prefixText {op : String} (h : op ∈ prefixOperators.map Prod.fst) :
    Closed (prefixText op) := by
  have all : ∀ op ∈ prefixOperators.map Prod.fst, Closed (prefixText op) := by decide
  exact all op h

/-! ## Items -/

theorem closed_items {o c : Char} (ho : closing? o = some c) {es : List Expr}
    (h : ∀ e ∈ es, Closed (render e)) : Closed (o :: (renderItems [','] es ++ [c])) := by
  have hitems : ∀ t ∈ es.map text, Closed t.toList := by
    intro t ht
    obtain ⟨e, he, rfl⟩ := List.mem_map.1 ht
    rw [text, String.toList_ofList]
    exact h e he
  have hjoin : (joinWith "," (es.map text)).toList = renderItems [','] es :=
    Content.toList_joinWith "," es
  rw [← hjoin]
  exact closed_bracketed ho (scan_joinWith hitems c)

/-! ## Conditionals -/

theorem closed_branches {bs : List (Expr × Expr)} (hne : bs ≠ [])
    (h : ∀ b ∈ bs, Closed (render b.1) ∧ Closed (render b.2)) :
    ∀ first, Closed (renderBranches first bs) := by
  induction bs with
  | nil => exact absurd rfl hne
  | cons b bs ih =>
    intro first
    obtain ⟨c, v⟩ := b
    obtain ⟨⟨hc, hv⟩, hbs⟩ := List.forall_mem_cons.1 h
    have hkeyword : Closed (if first then "if " else " elseif ").toList := by
      cases first <;> decide
    have hthen : Closed " then ".toList := by decide
    have hcondition := closed_bracket hc (precedence c < conditionalPrecedence + 1)
    have hvalue := closed_bracket hv (precedence v < conditionalPrecedence + 1)
    have hbranch := ((hkeyword.append hcondition).append hthen).append hvalue
    rw [renderBranches]
    by_cases hmore : bs = []
    · subst hmore
      rw [renderBranches, List.append_nil]
      exact hbranch
    · exact hbranch.append (ih hmore hbs false)

theorem closed_conditional {bs : List (Expr × Expr)} {otherwise : Option Expr} (hne : bs ≠ [])
    (hb : ∀ b ∈ bs, Closed (render b.1) ∧ Closed (render b.2))
    (ho : ∀ e ∈ otherwise, Closed (render e)) : Closed (render (.conditional bs otherwise)) := by
  have hbranches := closed_branches hne hb true
  have helse : Closed " else ".toList := by decide
  rw [render, List.isEmpty_eq_false_iff.2 hne]
  cases otherwise with
  | none =>
    rw [renderOtherwise, List.append_nil]
    exact hbranches
  | some e => exact hbranches.append (helse.append (ho e rfl))

/-! ## Expressions -/

theorem closed_render {IsName : String → Prop}
    (hname : ∀ name, IsName name → Pattern.identifier.IsLexeme name.toList) {e : Expr}
    (h : Everywhere (HasShape IsName) e) : Closed (render e) := by
  induction e using Expr.induction with
  | integer n => exact closed_integerText n
  | float x text => exact closed_float (everywhere_float.1 h).1
  | string s => exact closed_quote s.toList
  | boolean b =>
    have htrue : Closed "true".toList := by decide
    have hfalse : Closed "false".toList := by decide
    rw [render]
    split
    · exact htrue
    · exact hfalse
  | identifier name => exact closed_name (hname name (everywhere_identifier.1 h))
  | operation op l r ihl ihr =>
    obtain ⟨hd, hl, hr⟩ := everywhere_operation.1 h
    exact closed_operation hd.1 (closed_bracket (ihl hl) _) (closed_bracket (ihr hr) _)
  | prefixed op e ih =>
    obtain ⟨hd, he⟩ := everywhere_prefixed.1 h
    exact (closed_prefixText hd).append (closed_bracket (ih he) _)
  | postfixed op e ih =>
    obtain ⟨hd, he⟩ := everywhere_postfixed.1 h
    obtain rfl : op = "!" := hd
    have hbang : Closed "!".toList := by decide
    exact (closed_bracket (ih he) _).append hbang
  | call head args ih iha =>
    obtain ⟨-, hh, ha⟩ := everywhere_call.1 h
    exact (ih hh).append (closed_items rfl fun a hm => iha a hm (ha a hm))
  | indexed target indices ih iha =>
    obtain ⟨-, ht, hi⟩ := everywhere_indexed.1 h
    exact (ih ht).append (closed_items rfl fun a hm => iha a hm (hi a hm))
  | conditional branches otherwise ihb iho =>
    obtain ⟨hd, hb, ho⟩ := everywhere_conditional.1 h
    exact closed_conditional hd
      (fun b hm => ⟨(ihb b hm).1 (hb b hm).1, (ihb b hm).2 (hb b hm).2⟩)
      fun e hm => iho e hm (ho e hm)
  | list items ih => exact closed_items rfl fun a hm => ih a hm ((everywhere_list.1 h).2 a hm)
  | set items ih => exact closed_items rfl fun a hm => ih a hm ((everywhere_set.1 h).2 a hm)
  | root items ih => exact (everywhere_root.1 h).1.elim

theorem Readable.closed {e : Expr} (h : Readable e) : Closed (render e) :=
  closed_render (fun _ h => h.1) fun d hd => (h d hd).1

end AlgebraBatch.Expr
