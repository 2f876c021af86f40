import AlgebraBatch.Proofs.Syntax.FloatValue
import AlgebraBatch.Proofs.Syntax.Legibility

/-!
# Normal forms

The printed text of an expression is its normal form if it is read as the same expression. What a
text means has a normal form exactly if it is legible (`stable_iff_legible`), and where all names
are plain, exactly if no quote is applied to a quote. A quote on a quote in parentheses has none:
the parentheses are not printed.
-/

namespace AlgebraBatch.Syntax

open AlgebraBatch.Text AlgebraBatch.Expr

/-- The text of the expression means the same expression, which has the same text. -/
def Stable (e : Expr) : Prop :=
  ∃ e', parseExpr e.text = .ok e' ∧ e'.equal e = true ∧ e'.text = e.text

theorem stable_of_legible {e : Expr} (he : Readable e) (h : Legible e) : Stable e :=
  ⟨e, parseExpr_text he h, he.equal_self, rfl⟩

theorem legible_of_stable {e : Expr} (he : Readable e) (h : Stable e) : Legible e := by
  obtain ⟨e', hp, heq, -⟩ := h
  exact legible_of_parseExpr he hp heq

/-- What a text means has a stable normal form exactly if its printed text is read as it was
meant. -/
theorem stable_iff_legible {text : String} {e : Expr} (h : parseExpr text = .ok e) :
    Stable e ↔ Legible e := by
  have he := readable_of_parseExpr h
  constructor
  · exact legible_of_stable he
  · exact stable_of_legible he

/-- `1+not(x)`, where `not` is the name of a function, since only an operand may follow `+`. -/
def namedNot : Expr :=
  .operation "+" (.integer 1) (.call (.identifier "not") [.identifier "x"])

theorem legible_namedNot : Legible namedNot where
  quotes := by decide
  names := by
    have hs : sites true [] namedNot = [⟨false, "not(x)".toList⟩, ⟨true, "x)".toList⟩] := rfl
    rw [hs]
    have hnot : Pattern.ifWord.accept "not(x)".toList = none := rfl
    have hx : Pattern.ifWord.accept "x)".toList = none := rfl
    rintro σ (_ | ⟨_, _ | ⟨_, ⟨⟩⟩⟩)
    · exact ⟨refuses_conditional hnot, nofun⟩
    · exact ⟨refuses_conditional hx, fun _ => refuses_prefixed rfl⟩

set_option maxRecDepth 4000 in
theorem stable_namedNot : parseExpr "(1)+not( x )" = .ok namedNot ∧ Stable namedNot := by
  have h : parseExpr "(1)+not( x )" = .ok namedNot := rfl
  exact ⟨h, (stable_iff_legible h).2 legible_namedNot⟩

/-- Where all names are plain, only a quote on a quote is in the way. -/
theorem stable_iff_of_plain {text : String} {e : Expr} (h : parseExpr text = .ok e)
    (hn : Everywhere (HasShape IsPlainName) e) :
    Stable e ↔ Everywhere (fun d => d.stacksQuotes = false) e := by
  have he := readable_of_parseExpr h
  constructor
  · exact fun hs => (legible_of_stable he hs).quotes
  · intro hq
    have hw : WellFormed e := fun d hd => ⟨hn d hd, hq d hd⟩
    exact stable_of_legible he (legible_of_wellFormed hw)

/-- A quote on a quote. -/
def stackedQuotes : Expr := .prefixed "'" (.prefixed "'" (.identifier "x"))

set_option maxRecDepth 4000 in
/-- The parentheses keep the two quotes apart, and they are not printed. -/
theorem not_stable_stackedQuotes :
    parseExpr "'('x)" = .ok stackedQuotes ∧ stackedQuotes.text = "''x" ∧ ¬ Stable stackedQuotes := by
  have hp : parseExpr "'('x)" = .ok stackedQuotes := rfl
  refine ⟨hp, rfl, fun hs => ?_⟩
  have hl := legible_of_stable (readable_of_parseExpr hp) hs
  exact absurd hl.quotes (by decide)

end AlgebraBatch.Syntax
