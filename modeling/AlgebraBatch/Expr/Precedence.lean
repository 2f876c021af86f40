import AlgebraBatch.Expr.Basic

/-!
# Precedence

Every expression has a precedence, and an operand is put in parentheses when its own precedence is
below the least one that its place admits. The numbers agree with the levels of the grammar, the
loosest first.
-/

namespace AlgebraBatch.Expr

/-- The infix operators with their precedences. -/
def binaryOperators : List (String × Nat) :=
  [(":", 10), (":=", 10), ("or", 20), ("and", 30), ("=", 50), ("#", 50), ("<", 50), (">", 50),
    ("<=", 50), (">=", 50), ("+", 60), ("-", 60), ("*", 70), ("/", 70), (".", 78), ("^", 80),
    ("^^", 80), ("**", 80)]

/-- The operators that stand before their operand, with their precedences. -/
def prefixOperators : List (String × Nat) :=
  [("not", 40), ("-", 75), ("+", 75), ("'", 75), ("''", 75)]

/-- What needs no parentheses anywhere. Unknown operators count as such too. -/
def atomPrecedence : Nat := 100

def postfixPrecedence : Nat := 90

def negativePrecedence : Nat := 75

def conditionalPrecedence : Nat := 5

def binaryPrecedence (op : String) : Nat :=
  (binaryOperators.lookup op).getD atomPrecedence

def prefixPrecedence (op : String) : Nat :=
  (prefixOperators.lookup op).getD atomPrecedence

/-- The operators that group to the right. -/
def isRightAssociative (op : String) : Bool :=
  [":", ":=", "^", "^^", "**"].contains op

/-- The operators that are written with a space on either side. -/
def isSpaced (op : String) : Bool :=
  ["or", "and", ".", "=", "#", "<", ">", "<=", ">="].contains op

/-- A negative number binds like the negation it is written with. -/
def precedence : Expr → Nat
  | operation op _ _ => binaryPrecedence op
  | prefixed op _ => prefixPrecedence op
  | postfixed _ _ => postfixPrecedence
  | conditional _ _ => conditionalPrecedence
  | integer n => if n < 0 then negativePrecedence else atomPrecedence
  | float x _ => if x.isNegative then negativePrecedence else atomPrecedence
  | _ => atomPrecedence

/-- The least precedence of a left operand that stands without parentheses. -/
def leftMinimum (op : String) : Nat :=
  if isRightAssociative op then binaryPrecedence op + 1 else binaryPrecedence op

/-- The least precedence of a right operand that stands without parentheses. -/
def rightMinimum (op : String) : Nat :=
  if isRightAssociative op then binaryPrecedence op else binaryPrecedence op + 1

end AlgebraBatch.Expr
