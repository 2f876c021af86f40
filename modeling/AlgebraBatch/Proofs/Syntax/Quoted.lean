import AlgebraBatch.Proofs.Syntax.Printed
import AlgebraBatch.Proofs.Syntax.Record

/-!
# Quoted texts are read back

The literal of a text is the text with its backslashes and then its quotes replaced, between quotes
(`toList_quoteText`). It says itself where it ends, whatever comes after it: the pattern of strings
stops at its closing quote, the value of what it has read is the text, and two literals with
something after them are never the same text unless they are the same literals.
-/

namespace AlgebraBatch.Literal

/-- The text with `w` in place of each `c`. -/
def substitute (c : Char) (w cs : List Char) : List Char :=
  cs.flatMap fun d => if d == c then w else [d]

/-- A backslash before each backslash, and after that one before each quote. -/
theorem escape_eq_substitute (cs : List Char) :
    escape cs = substitute '"' ['\\', '"'] (substitute '\\' ['\\', '\\'] cs) := by
  induction cs with
  | nil => rfl
  | cons c cs ih =>
    have hcons : substitute '\\' ['\\', '\\'] (c :: cs) =
        (if c == '\\' then ['\\', '\\'] else [c]) ++ substitute '\\' ['\\', '\\'] cs := rfl
    rw [escape, ih, hcons]
    by_cases hslash : c = '\\'
    · subst hslash
      rfl
    · by_cases hquote : c = '"'
      · subst hquote
        rfl
      · simp [substitute, hslash, hquote]

theorem toList_quoteText (text : String) :
    (quoteText text).toList =
      '"' :: (substitute '"' ['\\', '"'] (substitute '\\' ['\\', '\\'] text.toList) ++ ['"']) := by
  rw [quoteText, String.toList_ofList, quote, escape_eq_substitute]

end AlgebraBatch.Literal

namespace AlgebraBatch.Syntax

open AlgebraBatch.Text AlgebraBatch.Literal Peg

variable (s r : String)

theorem toList_quoteText_append :
    (quoteText s ++ r).toList = quote s.toList ++ r.toList := by
  rw [String.toList_append, quoteText, String.toList_ofList]

/-- The pattern of strings reads the literal and nothing more. -/
theorem acceptString_quoteText :
    Pattern.string.accept (quoteText s ++ r).toList = some r.toList := by
  rw [toList_quoteText_append]
  exact acceptString_quote _ _

theorem text_quoteText : (Piece.between (quoteText s ++ r).toList r.toList).text = quoteText s := by
  rw [toList_quoteText_append, text_between_append]
  rfl

/-- What the literal stands for. -/
theorem expr_quoteText : AtomKind.string.expr (quoteText s) = .string s := by
  rw [AtomKind.expr, quoteText, String.toList_ofList, unquote_quote, String.ofList_toList]

/-- No other alternative of the grammar reads anything where a literal begins. -/
theorem reads_quoteText :
    ReadsAs .primary (quoteText s ++ r).toList
      (.atom .string (.between (quoteText s ++ r).toList r.toList)) r.toList := by
  have haccept := acceptString_quoteText s r
  rw [toList_quoteText_append] at haccept ⊢
  exact reads_string rfl rfl haccept

/-- A record of the literal is assembled to a string with the text. -/
theorem assemble_quoteText {d : Datum} (htag : HasTag d "string")
    (htext : HasText d (quoteText s)) :
    assemble d = .ok (.node (.string (.str s)) []) := by
  have hpiece := text_quoteText s ""
  have hlexeme := isLexeme_atom (k := .string) (acceptString_quoteText s "")
  have hatom : IsAtom .string (.between (quoteText s ++ "").toList "".toList) d := by
    refine ⟨htag, ?_⟩
    rw [hpiece]
    exact htext
  rw [assemble, build_atom hatom hlexeme (Nat.lt_succ_self _), hpiece, expr_quoteText]
  rfl

theorem text_string : (Expr.string s).text = quoteText s := rfl

theorem parseExpr_quoteText : parseExpr (quoteText s) = .ok (.string s) := by
  have hlegible : Legible (.string s) := ⟨Expr.everywhere_string.2 rfl, nofun⟩
  rw [← text_string]
  exact parseExpr_text (Expr.everywhere_string.2 ⟨trivial, rfl⟩) hlegible

variable {s r}

/-- The literal ends at the same place in both, because the same is read from both. -/
theorem quoteText_append_inj {s' r' : String} :
    quoteText s ++ r = quoteText s' ++ r' ↔ s = s' ∧ r = r' := by
  constructor
  · intro h
    have hrest : some r.toList = some r'.toList := by
      rw [← acceptString_quoteText s r, h, acceptString_quoteText]
    obtain rfl := String.toList_injective (Option.some.inj hrest)
    refine ⟨?_, rfl⟩
    have htext : quoteText s = quoteText s' := by
      rw [← text_quoteText s r, h, text_quoteText]
    have hexpr := expr_quoteText s
    rw [htext, expr_quoteText] at hexpr
    exact (Expr.string.inj hexpr).symm
  · rintro ⟨rfl, rfl⟩
    rfl

/-- The literal of a text replaces its backslashes first and its quotes after them. Whatever follows
it, it is read as a string and not beyond its end. It is assembled and parsed to the text, the text
is printed as the literal, and texts that begin with a literal are the same only if the literals and
what follows them are. -/
theorem quoteText_readBack (s r : String) :
    (quoteText s).toList =
        '"' :: (substitute '"' ['\\', '"'] (substitute '\\' ['\\', '\\'] s.toList) ++ ['"']) ∧
      Pattern.string.accept (quoteText s ++ r).toList = some r.toList ∧
      (Piece.between (quoteText s ++ r).toList r.toList).text = quoteText s ∧
      ReadsAs .primary (quoteText s ++ r).toList
        (.atom .string (.between (quoteText s ++ r).toList r.toList)) r.toList ∧
      (∀ d, HasTag d "string" → HasText d (quoteText s) →
        assemble d = .ok (.node (.string (.str s)) [])) ∧
      parseExpr (quoteText s) = .ok (.string s) ∧ (Expr.string s).text = quoteText s ∧
      ∀ s' r', quoteText s ++ r = quoteText s' ++ r' ↔ s = s' ∧ r = r' :=
  ⟨toList_quoteText s, acceptString_quoteText s r, text_quoteText s r, reads_quoteText s r,
    fun _ htag htext => assemble_quoteText s htag htext, parseExpr_quoteText s, text_string s,
    fun _ _ => quoteText_append_inj⟩

/-- The record of a literal in which a backslash stands before a quote and before a line feed. -/
def marksRecord : Datum :=
  .map [(.str "tag", .str "string"), (.str "text", .str (quoteText "\\\"\\\n"))]

theorem assemble_marksRecord :
    HasTag marksRecord "string" ∧ HasText marksRecord (quoteText "\\\"\\\n") ∧
      assemble marksRecord = .ok (.node (.string (.str "\\\"\\\n")) []) := by
  have htag : HasTag marksRecord "string" := rfl
  have htext : HasText marksRecord (quoteText "\\\"\\\n") := rfl
  exact ⟨htag, htext, (quoteText_readBack "\\\"\\\n" "").2.2.2.2.1 marksRecord htag htext⟩

end AlgebraBatch.Syntax
