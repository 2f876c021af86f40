import AlgebraBatch.Content.Basic
import AlgebraBatch.Datum.Display

/-!
# The structure of a tree as text

`debug` shows the classes of nodes, what they carry and their parts.
-/

namespace AlgebraBatch

open AlgebraBatch.Text

def bracketed (texts : List String) : String :=
  "[" ++ joinWith ", " texts ++ "]"

/-- A node in a message, from its parts in messages. -/
def Shape.debug : Shape → List String → String
  | integer n, _ => "Integer(" ++ toString n ++ ")"
  | float x _, _ => "Float(" ++ (Datum.float x).debug ++ ")"
  | string d, _ => "String(" ++ d.debug ++ ")"
  | boolean d, _ => "Boolean(" ++ d.debug ++ ")"
  | identifier d, _ => "Identifier<" ++ d.debug ++ ">"
  | operation op, parts => "Operation(" ++ joinWith ", " (op.debug :: parts) ++ ")"
  | prefixed op, parts => "PrefixOp(" ++ joinWith ", " (op.debug :: parts) ++ ")"
  | postfixed op, parts => "PostfixOp(" ++ joinWith ", " (op.debug :: parts) ++ ")"
  | call, parts => "FunctionCall(" ++ parts.headD "" ++ ", " ++ bracketed parts.tail ++ ")"
  | indexed, parts => "Indexed(" ++ parts.headD "" ++ ", " ++ bracketed parts.tail ++ ")"
  | conditional, parts =>
    "Conditional(" ++ bracketed (branches parts) ++ ", " ++ otherwise parts ++ ")"
  | list, parts => "List(" ++ bracketed parts ++ ")"
  | set, parts => "Set(" ++ bracketed parts ++ ")"
  | root, parts => "Root(" ++ bracketed parts ++ ")"
where
  branches : List String → List String
    | c :: v :: parts => ("(" ++ c ++ ", " ++ v ++ ")") :: branches parts
    | _ => []
  otherwise : List String → String
    | [] => Datum.null.debug
    | [e] => e
    | _ :: _ :: parts => otherwise parts

namespace Content

mutual

def debug : Content → String
  | datum d => d.debug
  | list items => bracketed (debugItems items)
  | map entries => "\x7b" ++ joinWith ", " (debugEntries entries) ++ "\x7d"
  | node shape parts => shape.debug (debugItems parts)

def debugItems : List Content → List String
  | [] => []
  | c :: cs => debug c :: debugItems cs

def debugEntries : List (Datum × Content) → List String
  | [] => []
  | (k, c) :: es => (k.debug ++ ": " ++ debug c) :: debugEntries es

end

end Content

end AlgebraBatch
