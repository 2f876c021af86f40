import AlgebraBatch.Decimal.Binary64

/-!
# Expressions

An `Expr` is a value or a statement of the engine's language: atoms, operators, calls, subscripts,
conditionals and collections. `root` is the top of a parse and holds the expression. `walk` lists an
expression and everything below it, each node before its children, and `equal` compares trees by
value, floats without regard to spelling.
-/

namespace AlgebraBatch

inductive Expr where
  | integer (value : Int)
  | float (value : Binary64) (text : String)
  | string (value : String)
  | boolean (value : Bool)
  | identifier (name : String)
  | operation (op : String) (lhs rhs : Expr)
  | prefixed (op : String) (operand : Expr)
  | postfixed (op : String) (operand : Expr)
  | call (head : Expr) (args : List Expr)
  | indexed (target : Expr) (indices : List Expr)
  | conditional (branches : List (Expr × Expr)) (otherwise : Option Expr)
  | list (items : List Expr)
  | set (items : List Expr)
  | root (items : List Expr)
  deriving Repr, Inhabited

namespace Expr

/-- The name of a node's class in messages. -/
def typeName : Expr → String
  | integer _ => "Integer"
  | float .. => "Float"
  | string _ => "String"
  | boolean _ => "Boolean"
  | identifier _ => "Identifier"
  | operation .. => "Operation"
  | prefixed .. => "PrefixOp"
  | postfixed .. => "PostfixOp"
  | call .. => "FunctionCall"
  | indexed .. => "Indexed"
  | conditional .. => "Conditional"
  | list _ => "List"
  | set _ => "Set"
  | root _ => "Root"

mutual

/-- The node and then every node below it, depth first. -/
def walk : Expr → List Expr
  | operation op l r => operation op l r :: (walk l ++ walk r)
  | prefixed op e => prefixed op e :: walk e
  | postfixed op e => postfixed op e :: walk e
  | call head args => call head args :: (walk head ++ walkItems args)
  | indexed target indices => indexed target indices :: (walk target ++ walkItems indices)
  | conditional branches otherwise =>
    conditional branches otherwise :: (walkBranches branches ++ walkOption otherwise)
  | list items => list items :: walkItems items
  | set items => set items :: walkItems items
  | root items => root items :: walkItems items
  | e => [e]

def walkItems : List Expr → List Expr
  | [] => []
  | e :: es => walk e ++ walkItems es

def walkBranches : List (Expr × Expr) → List Expr
  | [] => []
  | (c, v) :: bs => walk c ++ walk v ++ walkBranches bs

def walkOption : Option Expr → List Expr
  | none => []
  | some e => walk e

end

mutual

def equal : Expr → Expr → Bool
  | integer m, integer n => m == n
  | float x _, float y _ => x.equal y
  | string s, string t => s == t
  | boolean a, boolean b => a == b
  | identifier x, identifier y => x == y
  | operation o l r, operation o' l' r' => o == o' && equal l l' && equal r r'
  | prefixed o e, prefixed o' e' => o == o' && equal e e'
  | postfixed o e, postfixed o' e' => o == o' && equal e e'
  | call f xs, call g ys => equal f g && equalItems xs ys
  | indexed f xs, indexed g ys => equal f g && equalItems xs ys
  | conditional bs e, conditional bs' e' => equalBranches bs bs' && equalOption e e'
  | list xs, list ys => equalItems xs ys
  | set xs, set ys => equalItems xs ys
  | root xs, root ys => equalItems xs ys
  | _, _ => false
termination_by structural e => e

def equalItems : List Expr → List Expr → Bool
  | [], [] => true
  | x :: xs, y :: ys => equal x y && equalItems xs ys
  | _, _ => false
termination_by structural e => e

def equalBranches : List (Expr × Expr) → List (Expr × Expr) → Bool
  | [], [] => true
  | (c, v) :: bs, (c', v') :: bs' => equal c c' && equal v v' && equalBranches bs bs'
  | _, _ => false
termination_by structural e => e

def equalOption : Option Expr → Option Expr → Bool
  | none, none => true
  | some a, some b => equal a b
  | _, _ => false
termination_by structural e => e

end

end Expr

end AlgebraBatch
