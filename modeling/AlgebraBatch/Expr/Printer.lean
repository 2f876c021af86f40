import AlgebraBatch.Expr.Literal
import AlgebraBatch.Expr.Precedence

/-!
# Printing expressions

`render` writes an expression in the engine's language with as few parentheses as the precedences
allow. Items of calls, subscripts and collections are never put in parentheses; the branches of a
conditional are if they are conditionals themselves, so that each `else` keeps its own `if`.
-/

namespace AlgebraBatch.Expr

/-- Parentheses around a text, if they are needed. -/
def bracket (needed : Bool) (cs : List Char) : List Char :=
  if needed then '(' :: (cs ++ [')']) else cs

def integerText (n : Int) : List Char :=
  if n < 0 then '-' :: Nat.toDigits 10 n.natAbs else Nat.toDigits 10 n.natAbs

/-- An infix operator with the spaces around it. -/
def operatorText (op : String) : List Char :=
  if isSpaced op then ' ' :: (op.toList ++ [' ']) else op.toList

def prefixText (op : String) : List Char :=
  if op == "not" then "not ".toList else op.toList

mutual

def render : Expr → List Char
  | integer n => integerText n
  | float _ text => text.toList
  | string s => Literal.quote s.toList
  | boolean b => if b then "true".toList else "false".toList
  | identifier name => name.toList
  | operation op l r =>
    bracket (precedence l < leftMinimum op) (render l) ++ operatorText op ++
      bracket (precedence r < rightMinimum op) (render r)
  | prefixed op e => prefixText op ++ bracket (precedence e < prefixPrecedence op) (render e)
  | postfixed op e => bracket (precedence e < postfixPrecedence + 1) (render e) ++ op.toList
  | call head args => render head ++ '(' :: (renderItems [','] args ++ [')'])
  | indexed target indices => render target ++ '[' :: (renderItems [','] indices ++ [']'])
  | conditional branches otherwise =>
    renderBranches true branches ++ renderOtherwise branches.isEmpty otherwise
  | list items => '[' :: (renderItems [','] items ++ [']'])
  | set items => '\x7b' :: (renderItems [','] items ++ ['\x7d'])
  | root items => renderItems [',', ' '] items

/-- Items with a separator between them. -/
def renderItems (sep : List Char) : List Expr → List Char
  | [] => []
  | [e] => render e
  | e :: es => render e ++ sep ++ renderItems sep es

/-- The branches with their keywords, the first one with `if`. -/
def renderBranches (first : Bool) : List (Expr × Expr) → List Char
  | [] => []
  | (c, v) :: bs =>
    (if first then "if " else " elseif ").toList ++
      bracket (precedence c < conditionalPrecedence + 1) (render c) ++ " then ".toList ++
      bracket (precedence v < conditionalPrecedence + 1) (render v) ++ renderBranches false bs

/-- The last value with its keyword. -/
def renderOtherwise (first : Bool) : Option Expr → List Char
  | none => []
  | some e => (if first then "else " else " else ").toList ++ render e

end

/-- The text of an expression. -/
def text (e : Expr) : String :=
  String.ofList (render e)

end AlgebraBatch.Expr
