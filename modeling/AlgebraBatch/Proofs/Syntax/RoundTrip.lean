import AlgebraBatch.Proofs.Syntax.FloatValue
import AlgebraBatch.Proofs.Syntax.Printed

/-!
# Round trips

A well-formed expression is read back from its text with a minus operator before each number that
was negative. The expression that is read equals itself, so no float in it is a NaN.
-/

namespace AlgebraBatch.Syntax

open AlgebraBatch.Expr

theorem parseExpr_text_of_wellFormed {e : Expr} (h : WellFormed e) :
    parseExpr e.text = .ok e.normal ∧ e.normal.equal e.normal = true := by
  refine ⟨?_, h.readable.equal_self⟩
  rw [← text_normal]
  exact parseExpr_text h.readable (legible_of_wellFormed h.normal)

/-- `'(-2)*if x1 then 1.5b-3`, with the quote on a negative number. -/
def quotedProduct : Expr :=
  .operation "*" (.prefixed "'" (.integer (-2)))
    (.conditional [(.identifier "x1", .float (floatValue "1.5b-3") "1.5b-3")] none)

theorem wellFormed_quotedProduct : WellFormed quotedProduct := by
  decide

theorem parseExpr_quotedProduct :
    parseExpr quotedProduct.text = .ok quotedProduct.normal ∧
      quotedProduct.normal.equal quotedProduct.normal = true :=
  parseExpr_text_of_wellFormed wellFormed_quotedProduct

end AlgebraBatch.Syntax
