import AlgebraBatch.Decimal.Numeral
import AlgebraBatch.Expr.Literal
import AlgebraBatch.Expr.Basic
import AlgebraBatch.Peg.Basic

/-!
# Syntax trees

A syntax tree is an expression as it was written: every node knows its stretch of the text, an infix
operation that of its operator. Parentheses leave no node. `expr` is the expression that a tree
means, and `nodes` lists the tree in the order of `Expr.walk`, so that each node of the expression
has its place in the text.
-/

namespace AlgebraBatch.Syntax

open AlgebraBatch.Text

inductive AtomKind where
  | integer
  | float
  | string
  | boolean
  | identifier
  deriving DecidableEq, Repr

inductive Tree where
  | atom (kind : AtomKind) (piece : Piece)
  | binary (op : Piece) (lhs rhs : Tree)
  | unary (span op : Piece) (operand : Tree)
  | factorial (span : Piece) (operand : Tree)
  | call (span head : Piece) (args : List Tree)
  | indexed (span head : Piece) (indices : List Tree)
  | conditional (span : Piece) (first : Tree × Tree) (more : List (Tree × Tree))
      (otherwise : Option Tree)
  | list (span : Piece) (items : List Tree)
  | set (span : Piece) (items : List Tree)
  deriving Repr, Inhabited

/-- Where a node stands: the stretch at whose beginning it is, what kind of node it is, and its
text, which an infix operation has not. -/
structure Mark where
  left : Nat
  tag : String
  text : Option String
  deriving DecidableEq, Repr

def AtomKind.tag : AtomKind → String
  | integer => "integer"
  | float => "float"
  | string => "string"
  | boolean => "boolean"
  | identifier => "identifier"

/-- The value of a float; `b` marks the exponent of a long float and counts as `e`. -/
def floatValue (text : String) : Binary64 :=
  let cs := text.toList.map fun c => if c == 'b' || c == 'B' then 'e' else c
  match Numeral.readFloat (String.ofList cs) with
  | .ok x => x
  | .error _ => .nan

/-- The operator that an operation has, whichever way it was spelled. -/
def operatorName (spelled : String) : String :=
  if spelled == "**" then "^" else spelled

def AtomKind.expr : AtomKind → String → Expr
  | integer, text => .integer (digitsToNat text.toList)
  | float, text => .float (floatValue text) text
  | string, text => .string (String.ofList (Literal.unquote text.toList))
  | boolean, text => .boolean (text == "true")
  | identifier, text => .identifier text

namespace Tree

mutual

/-- The expression that a tree means. -/
def expr : Tree → Expr
  | atom kind p => kind.expr p.text
  | binary op l r => .operation (operatorName op.text) (expr l) (expr r)
  | unary _ op t => .prefixed op.text (expr t)
  | factorial _ t => .postfixed "!" (expr t)
  | call _ head args => .call (.identifier head.text) (exprItems args)
  | indexed _ head indices => .indexed (.identifier head.text) (exprItems indices)
  | conditional _ (c, v) more otherwise =>
    .conditional ((expr c, expr v) :: exprBranches more) (exprOption otherwise)
  | list _ items => .list (exprItems items)
  | set _ items => .set (exprItems items)

def exprItems : List Tree → List Expr
  | [] => []
  | t :: ts => expr t :: exprItems ts

def exprBranches : List (Tree × Tree) → List (Expr × Expr)
  | [] => []
  | (c, v) :: bs => (expr c, expr v) :: exprBranches bs

def exprOption : Option Tree → Option Expr
  | none => none
  | some t => some (expr t)

end

mutual

/-- The tree and every tree below it, depth first. The head of a call or of a subscript is an
identifier below it. -/
def nodes : Tree → List Tree
  | atom kind p => [atom kind p]
  | binary op l r => binary op l r :: (nodes l ++ nodes r)
  | unary span op t => unary span op t :: nodes t
  | factorial span t => factorial span t :: nodes t
  | call span head args => call span head args :: atom .identifier head :: nodesItems args
  | indexed span head indices =>
    indexed span head indices :: atom .identifier head :: nodesItems indices
  | conditional span (c, v) more otherwise =>
    conditional span (c, v) more otherwise ::
      (nodes c ++ nodes v ++ nodesBranches more ++ nodesOption otherwise)
  | list span items => list span items :: nodesItems items
  | set span items => set span items :: nodesItems items

def nodesItems : List Tree → List Tree
  | [] => []
  | t :: ts => nodes t ++ nodesItems ts

def nodesBranches : List (Tree × Tree) → List Tree
  | [] => []
  | (c, v) :: bs => nodes c ++ nodes v ++ nodesBranches bs

def nodesOption : Option Tree → List Tree
  | none => []
  | some t => nodes t

end

def mark : Tree → Mark
  | atom kind p => ⟨p.left, kind.tag, some p.text⟩
  | binary op _ _ => ⟨op.left, "binary_op", none⟩
  | unary span _ _ => ⟨span.left, "prefix_op", some span.text⟩
  | factorial span _ => ⟨span.left, "factorial", some span.text⟩
  | call span _ _ => ⟨span.left, "call", some span.text⟩
  | indexed span _ _ => ⟨span.left, "indexed", some span.text⟩
  | conditional span _ _ _ => ⟨span.left, "conditional", some span.text⟩
  | list span _ => ⟨span.left, "list", some span.text⟩
  | set span _ => ⟨span.left, "set", some span.text⟩

/-- The number of digits of an integer that has too many. -/
def tooManyDigits? : Tree → Option Nat
  | atom .integer p => if Numeral.maxDigits < p.text.length then some p.text.length else none
  | _ => none

/-- The number of digits of the first integer in the tree that has too many. -/
def overlong? (t : Tree) : Option Nat :=
  t.nodes.findSome? tooManyDigits?

end Tree

end AlgebraBatch.Syntax
