import AlgebraBatch.Datum.Basic
import AlgebraBatch.Expr.Precedence

/-!
# Data that holds nodes

A `Content` is data in which nodes of expressions may stand, and nodes in which data may stand in
place of a node, a name or an operator. It is what comes of trees that were put together by hand.
`ofExpr` makes a content of an expression. `equal` compares contents by value, and `walk` visits the
nodes of a tree and fails where it comes upon something that is none.
-/

namespace AlgebraBatch

/-- The kind of a node and the value that it carries. In a proper node the names, the operators and
the texts are texts, and the value of a boolean is a truth value. -/
inductive Shape where
  | integer (value : Int)
  | float (value : Binary64) (text : Datum)
  | string (value : Datum)
  | boolean (value : Datum)
  | identifier (name : Datum)
  | operation (op : Datum)
  | prefixed (op : Datum)
  | postfixed (op : Datum)
  | call
  | indexed
  | conditional
  | list
  | set
  | root
  deriving Repr, Inhabited

/-- A node has its parts from left to right: operands, the head of a call or of a subscript and then
what is in the brackets, the conditions and values of a conditional in turn and then the value that
is left over, or items. -/
inductive Content where
  | datum (d : Datum)
  | list (items : List Content)
  | map (entries : List (Datum × Content))
  | node (shape : Shape) (parts : List Content)
  deriving Repr, Inhabited

namespace Shape

/-- The name of a node's class in messages. -/
def typeName : Shape → String
  | integer _ => "Integer"
  | float .. => "Float"
  | string _ => "String"
  | boolean _ => "Boolean"
  | identifier _ => "Identifier"
  | operation _ => "Operation"
  | prefixed _ => "PrefixOp"
  | postfixed _ => "PostfixOp"
  | call => "FunctionCall"
  | indexed => "Indexed"
  | conditional => "Conditional"
  | list => "List"
  | set => "Set"
  | root => "Root"

/-- Equality by value; the spelling of a float does not count. -/
def equal : Shape → Shape → Bool
  | integer m, integer n => m == n
  | float x _, float y _ => x.equal y
  | string a, string b => a.equal b
  | boolean a, boolean b => a.equal b
  | identifier a, identifier b => a.equal b
  | operation a, operation b => a.equal b
  | prefixed a, prefixed b => a.equal b
  | postfixed a, postfixed b => a.equal b
  | call, call => true
  | indexed, indexed => true
  | conditional, conditional => true
  | list, list => true
  | set, set => true
  | root, root => true
  | _, _ => false

/-- Atoms and identifiers can be members of a mathematical set of nodes, if their value can. -/
def isHashable : Shape → Bool
  | integer _ => true
  | float .. => true
  | string d => d.isHashable
  | boolean d => d.isHashable
  | identifier d => d.isHashable
  | _ => false

end Shape

namespace Content

/-! ## Expressions as contents -/

mutual

def ofExpr : Expr → Content
  | .integer n => node (.integer n) []
  | .float x text => node (.float x (.str text)) []
  | .string s => node (.string (.str s)) []
  | .boolean b => node (.boolean (.bool b)) []
  | .identifier name => node (.identifier (.str name)) []
  | .operation op l r => node (.operation (.str op)) [ofExpr l, ofExpr r]
  | .prefixed op e => node (.prefixed (.str op)) [ofExpr e]
  | .postfixed op e => node (.postfixed (.str op)) [ofExpr e]
  | .call head args => node .call (ofExpr head :: ofExprs args)
  | .indexed target indices => node .indexed (ofExpr target :: ofExprs indices)
  | .conditional branches otherwise => node .conditional (ofBranches branches ++ ofOption otherwise)
  | .list items => node .list (ofExprs items)
  | .set items => node .set (ofExprs items)
  | .root items => node .root (ofExprs items)

def ofExprs : List Expr → List Content
  | [] => []
  | e :: es => ofExpr e :: ofExprs es

def ofBranches : List (Expr × Expr) → List Content
  | [] => []
  | (c, v) :: bs => ofExpr c :: ofExpr v :: ofBranches bs

def ofOption : Option Expr → List Content
  | none => []
  | some e => [ofExpr e]

end

/-- The parts of a conditional. A last value that is null counts as none. -/
def closeBranches : List Content → List Content
  | [datum .null] => []
  | c :: v :: cs => c :: v :: closeBranches cs
  | cs => cs

/-- The content of a list; a list without nodes in it is plain data. -/
def ofItems (items : List Content) : Content :=
  match items.mapM plain? with
  | some ds => datum (.list ds)
  | none => list items
where
  plain? : Content → Option Datum
    | datum d => some d
    | _ => none

/-- The name of a content's type in messages. -/
def typeName : Content → String
  | datum d => d.typeName
  | list _ => (Datum.list []).typeName
  | map _ => (Datum.map []).typeName
  | node shape _ => shape.typeName

/-! ## Comparing and visiting -/

mutual

def equal : Content → Content → Bool
  | datum a, datum b => a.equal b
  | list xs, list ys => equalItems xs ys
  | map xs, map ys => xs.length == ys.length && equalEntries xs ys
  | node s ps, node t qs => s.equal t && equalItems ps qs
  | _, _ => false

def equalItems : List Content → List Content → Bool
  | [], [] => true
  | x :: xs, y :: ys => equal x y && equalItems xs ys
  | _, _ => false

/-- Every entry has an equal one among `ys`. -/
def equalEntries : List (Datum × Content) → List (Datum × Content) → Bool
  | [], _ => true
  | (k, v) :: xs, ys =>
    (match ys.find? fun entry => entry.1.equalAtom k with
      | some entry => equal v entry.2
      | none => false) && equalEntries xs ys

end

mutual

/-- A node and then every node below it, depth first. -/
def walk : Content → Option (List Content)
  | node shape parts => (walkItems parts).map fun cs => node shape parts :: cs
  | _ => none

def walkItems : List Content → Option (List Content)
  | [] => some []
  | c :: cs =>
    match walk c, walkItems cs with
    | some xs, some ys => some (xs ++ ys)
    | _, _ => none

end

/-- What can be a member of a mathematical set. -/
def isHashable : Content → Bool
  | datum d => d.isHashable
  | node shape _ => shape.isHashable
  | _ => false

/-- The contents without those equal to an earlier one. -/
def distinct : List Content → List Content
  | [] => []
  | c :: cs => c :: (distinct cs).filter fun c' => !c.equal c'

/-! ## Items -/

/-- What stands in order in a bracketed collection, a root, a list or a text. -/
def items? : Content → Option (List Content)
  | node .list items => some items
  | node .set items => some items
  | node .root items => some items
  | list items => some items
  | datum (.map _) => none
  | datum d => d.elements?.map fun ds => ds.map datum
  | _ => none

/-- How many items a content has, or how many entries. -/
def length? : Content → Option Nat
  | datum (.map entries) => some entries.length
  | map entries => some entries.length
  | c => c.items?.map List.length

/-- The item at an index, which counts from the end if it is negative. -/
def itemAt? (items : List Content) (index : Int) : Option Content :=
  let i := if index < 0 then index + items.length else index
  if i < 0 then none else items[i.toNat]?

end Content

end AlgebraBatch
