import AlgebraBatch.Content.Basic
import AlgebraBatch.Datum.Display
import AlgebraBatch.Expr.Printer
import AlgebraBatch.Fault

/-!
# Printing hand-made trees

`print` writes a tree in the engine's language. What it prints for a proper expression is the text
of the expression, as `print_ofExpr` says. In any other tree a name or an operator that is no text
is shown as it is, and a name alone stays the value that it is; data in place of a node cannot be
printed. `toDatum` puts the text of every node in its place, which is how data that holds nodes is
written down.
-/

namespace AlgebraBatch

open AlgebraBatch.Text

/-- An operator that is no text is none of the known ones, as nothing else is shown like them. -/
def Shape.precedence : Shape → Nat
  | integer n => Expr.precedence (.integer n)
  | float x _ => Expr.precedence (.float x "")
  | operation op => Expr.binaryPrecedence op.display
  | prefixed op => Expr.prefixPrecedence op.display
  | postfixed _ => Expr.postfixPrecedence
  | conditional => Expr.conditionalPrecedence
  | _ => Expr.atomPrecedence

namespace Content

def precedence : Content → Nat
  | node shape _ => shape.precedence
  | _ => Expr.atomPrecedence

/-- What is printed for a part, in parentheses if its precedence is below the minimum. -/
def wrapped (c : Content) (minimum : Nat) (printed : Datum) : String :=
  if c.precedence < minimum then "(" ++ printed.display ++ ")" else printed.display

/-- Texts with a separator between them; what is no text cannot stand there. -/
def joined (sep : String) (printed : List Datum) : Except Fault String :=
  match printed.mapM Datum.text? with
  | some texts => .ok (joinWith sep texts)
  | none => .error .wrongType

/-- An operator under which nothing can be looked up is at fault before its operands are. -/
def checkOperator (op : Datum) : Except Fault Unit :=
  if op.isHashable then .ok () else .error .wrongType

/-- What is printed for an atom or an identifier. -/
def printAtom : Shape → Except Fault Datum
  | .integer n => .ok (.str (toString n))
  | .float _ text => .ok text
  | .string (.str s) => .ok (.str (Literal.quoteText s))
  | .string _ => .error .missingMember
  | .boolean d => .ok (.str (if d.holds then "true" else "false"))
  | .identifier name => .ok name
  | _ => .error .wrongType

mutual

/-- What is printed for a tree. -/
def print : Content → Except Fault Datum
  | node (.operation op) [l, r] => do
    checkOperator op
    let a ← print l
    let b ← print r
    .ok (.str (l.wrapped (Expr.leftMinimum op.display) a ++
      String.ofList (Expr.operatorText op.display) ++
      r.wrapped (Expr.rightMinimum op.display) b))
  | node (.prefixed op) [c] => do
    checkOperator op
    let a ← print c
    .ok (.str (String.ofList (Expr.prefixText op.display) ++
      c.wrapped (Expr.prefixPrecedence op.display) a))
  | node (.postfixed op) [c] => do
    let a ← print c
    .ok (.str (c.wrapped (Expr.postfixPrecedence + 1) a ++ op.display))
  | node .call (head :: args) => do
    let inside ← joined "," (← printItems args)
    let a ← print head
    .ok (.str (a.display ++ "(" ++ inside ++ ")"))
  | node .indexed (target :: indices) => do
    let inside ← joined "," (← printItems indices)
    let a ← print target
    .ok (.str (a.display ++ "[" ++ inside ++ "]"))
  | node .conditional parts => do
    .ok (.str (joinWith " " (← printBranches true parts)))
  | node .list items => do
    .ok (.str ("[" ++ (← joined "," (← printItems items)) ++ "]"))
  | node .set items => do
    .ok (.str ("\x7b" ++ (← joined "," (← printItems items)) ++ "\x7d"))
  | node .root items => do
    .ok (.str (← joined ", " (← printItems items)))
  | node shape _ => printAtom shape
  | c => .error (.unprintable c.typeName)

def printItems : List Content → Except Fault (List Datum)
  | [] => .ok []
  | c :: cs => do
    let a ← print c
    let as ← printItems cs
    .ok (a :: as)

/-- The branches with their keywords, the first one with `if`, and the last value. -/
def printBranches (first : Bool) : List Content → Except Fault (List String)
  | [] => .ok []
  | [c] => do .ok ["else " ++ (← print c).display]
  | c :: v :: cs => do
    let a ← print c
    let b ← print v
    let more ← printBranches false cs
    .ok (((if first then "if " else "elseif ") ++ c.wrapped (Expr.conditionalPrecedence + 1) a ++
      " then " ++ v.wrapped (Expr.conditionalPrecedence + 1) b) :: more)

end

/-! ## Proper expressions -/

theorem ok_bind {ε α β : Type} (a : α) (f : α → Except ε β) : (Except.ok a >>= f) = f a := rfl

theorem precedence_ofExpr (e : Expr) : (ofExpr e).precedence = e.precedence := by
  cases e <;> rfl

theorem wrapped_ofExpr (e : Expr) (minimum : Nat) (cs : List Char) :
    (ofExpr e).wrapped minimum (.str (String.ofList cs)) =
      String.ofList (Expr.bracket (e.precedence < minimum) cs) := by
  apply String.toList_inj.mp
  by_cases h : e.precedence < minimum <;>
    simp [wrapped, precedence_ofExpr, Expr.bracket, Datum.display, h]

theorem toList_joinWith (sep : String) (es : List Expr) :
    (joinWith sep (es.map Expr.text)).toList = Expr.renderItems sep.toList es := by
  induction es with
  | nil => rfl
  | cons e es ih =>
    cases es with
    | nil => simp [joinWith, Expr.renderItems, Expr.text]
    | cons e' es => simp_all [joinWith, Expr.renderItems, Expr.text]

theorem joined_texts (sep : String) (es : List Expr) :
    joined sep (es.map fun e => .str (String.ofList e.render)) =
      .ok (String.ofList (Expr.renderItems sep.toList es)) := by
  have h : (es.map fun e => Datum.str (String.ofList e.render)).mapM Datum.text? =
      some (es.map Expr.text) := by
    induction es with
    | nil => rfl
    | cons e es ih => simp_all [List.mapM_cons, Datum.text?, Expr.text]
  simp only [joined, h]
  rw [← toList_joinWith, String.ofList_toList]

theorem toString_eq_integerText (n : Int) : toString n = String.ofList (Expr.integerText n) := by
  cases n with
  | ofNat n => rfl
  | negSucc n =>
    apply String.toList_inj.mp
    have h : toString (Int.negSucc n) = "-" ++ Nat.repr (n + 1) := rfl
    simp [h, Expr.integerText, Int.negSucc_lt_zero, Nat.repr]

/-- Texts with a blank before each. -/
def spaced (texts : List String) : List Char := texts.flatMap fun t => ' ' :: t.toList

theorem toList_joinWith_cons (t : String) (ts : List String) :
    (joinWith " " (t :: ts)).toList = t.toList ++ spaced ts := by
  induction ts generalizing t with
  | nil => simp [joinWith, spaced]
  | cons t' ts ih => simp [joinWith, ih, spaced]

mutual

theorem print_ofExpr (e : Expr) : (ofExpr e).print = .ok (.str e.text) := by
  cases e with
  | operation op l r =>
    simp [ofExpr, print, print_ofExpr l, print_ofExpr r, checkOperator, Datum.isHashable, ok_bind,
      Datum.display, Expr.text, wrapped_ofExpr, Expr.render, String.append_assoc]
  | prefixed op e =>
    simp [ofExpr, print, print_ofExpr e, checkOperator, Datum.isHashable, ok_bind, Datum.display,
      Expr.text, wrapped_ofExpr, Expr.render]
  | postfixed op e =>
    simp [ofExpr, print, print_ofExpr e, ok_bind, Datum.display, Expr.text, wrapped_ofExpr,
      Expr.render]
  | call head args =>
    simp [ofExpr, print, print_ofExpr head, printItems_ofExprs args, joined_texts, ok_bind,
      Datum.display, Expr.text, Expr.render, String.append_assoc]
  | indexed target indices =>
    simp [ofExpr, print, print_ofExpr target, printItems_ofExprs indices, joined_texts, ok_bind,
      Datum.display, Expr.text, Expr.render, String.append_assoc]
  | conditional branches otherwise =>
    obtain ⟨texts, h, hs⟩ := printBranches_ofOption otherwise
    match branches with
    | [] =>
      cases otherwise with
      | none => rfl
      | some e =>
        simp only [ofExpr, ofBranches, ofOption, List.nil_append, print, printBranches,
          print_ofExpr e, ok_bind]
        congr 2
        apply String.toList_inj.mp
        simp [joinWith, Datum.display, Expr.text, Expr.render, Expr.renderBranches,
          Expr.renderOtherwise]
    | (c, v) :: bs =>
      obtain ⟨texts, h, hs⟩ := printBranches_ofBranches bs h
      simp only [ofExpr, ofBranches, print, printBranches, List.cons_append, print_ofExpr c,
        print_ofExpr v, h, ok_bind]
      congr 2
      apply String.toList_inj.mp
      rw [toList_joinWith_cons, hs]
      simp_all [Expr.text, wrapped_ofExpr, Expr.render, Expr.renderBranches]
  | list items =>
    simp [ofExpr, print, printItems_ofExprs items, joined_texts, ok_bind, Expr.text, Expr.render,
      String.append_assoc]
  | set items =>
    simp [ofExpr, print, printItems_ofExprs items, joined_texts, ok_bind, Expr.text, Expr.render,
      String.append_assoc]
  | root items =>
    simp [ofExpr, print, printItems_ofExprs items, joined_texts, ok_bind, Expr.text, Expr.render]
  | integer n =>
    simp only [ofExpr, print, printAtom, toString_eq_integerText, Expr.text, Expr.render]
  | float x text => simp [ofExpr, print, printAtom, Expr.text, Expr.render]
  | string s => simp [ofExpr, print, printAtom, Expr.text, Expr.render, Literal.quoteText]
  | boolean b => cases b <;> simp [ofExpr, print, printAtom, Expr.text, Expr.render, Datum.holds]
  | identifier name => simp [ofExpr, print, printAtom, Expr.text, Expr.render]

theorem printItems_ofExprs (es : List Expr) :
    printItems (ofExprs es) = .ok (es.map fun e => .str e.text) := by
  cases es with
  | nil => rfl
  | cons e es => simp [ofExprs, printItems, print_ofExpr e, printItems_ofExprs es, ok_bind]

/-- The branches after the first one. -/
theorem printBranches_ofBranches (bs : List (Expr × Expr)) {cs : List Content}
    {texts : List String} (h : printBranches false cs = .ok texts) :
    ∃ texts', printBranches false (ofBranches bs ++ cs) = .ok texts' ∧
      spaced texts' = Expr.renderBranches false bs ++ spaced texts := by
  match bs with
  | [] => exact ⟨texts, h, rfl⟩
  | (c, v) :: bs =>
    obtain ⟨texts', h', hs⟩ := printBranches_ofBranches bs h
    refine ⟨_, by simp only [ofBranches, printBranches, List.cons_append, print_ofExpr c,
      print_ofExpr v, h', ok_bind]; rfl, ?_⟩
    simp only [spaced, List.flatMap_cons] at hs ⊢
    simp [hs, Expr.text, wrapped_ofExpr, Expr.renderBranches]

theorem printBranches_ofOption (o : Option Expr) :
    ∃ texts, printBranches false (ofOption o) = .ok texts ∧
      spaced texts = Expr.renderOtherwise false o := by
  cases o with
  | none => exact ⟨[], rfl, rfl⟩
  | some e =>
    exact ⟨["else " ++ e.text],
      by simp [ofOption, printBranches, print_ofExpr e, ok_bind, Datum.display],
      by simp [spaced, Expr.renderOtherwise, Expr.text]⟩

end

/-! ## Plain data from contents -/

/-- The text of a node, which must be a text. -/
def nodeText (c : Content) : Except Fault Datum := do
  match ← c.print with
  | .str s => .ok (.str s)
  | _ => .error .wrongType

mutual

def toDatum : Content → Except Fault Datum
  | datum d => .ok d
  | list items => (toDatumItems items).map .list
  | map entries => (toDatumEntries entries).map .map
  | node shape parts => (node shape parts).nodeText

def toDatumItems : List Content → Except Fault (List Datum)
  | [] => .ok []
  | c :: cs => do
    let d ← toDatum c
    let ds ← toDatumItems cs
    .ok (d :: ds)

def toDatumEntries : List (Datum × Content) → Except Fault (List (Datum × Datum))
  | [] => .ok []
  | (k, c) :: es => do
    let d ← toDatum c
    let ds ← toDatumEntries es
    .ok ((k, d) :: ds)

end

end Content

end AlgebraBatch
