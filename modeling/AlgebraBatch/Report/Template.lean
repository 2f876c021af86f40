import AlgebraBatch.Datum.Display

/-!
# Templates

A template is a text with holes, which data fill. A field is looked up in the innermost map that has
it; an item is the innermost value itself. A block is repeated for the items of a list, stands once
for any other value that holds, and not at all for a value that does not hold. A name that no map
has gives nothing. Data are never taken for a template. A value that cannot be written is a fault.
-/

namespace AlgebraBatch.Report

inductive Template where
  | text (s : String)
  | field (name : String)
  | item
  | block (name : String) (parts : List Template)
  deriving Repr

namespace Template

/-- The value of a name in the innermost map that has it. -/
def find? (name : String) (scopes : List Datum) : Option Datum :=
  scopes.findSome? (Datum.field? name)

/-- What a block is repeated for. -/
def repetitions : Option Datum → List Datum
  | none => []
  | some (.list items) => items
  | some d => if d.holds then [d] else []

def shown : Option Datum → Except Fault String
  | some d =>
    match d.writingFault? with
    | some fault => .error fault
    | none => .ok d.display
  | none => .ok ""

mutual

/-- The text of a part, where the innermost value comes first. -/
def render (scopes : List Datum) : Template → Except Fault String
  | .text s => .ok s
  | .field name => shown (find? name scopes)
  | .item => shown scopes.head?
  | .block name parts =>
    ((repetitions (find? name scopes)).mapM fun d => renderAll (d :: scopes) parts).map String.join

def renderAll (scopes : List Datum) : List Template → Except Fault String
  | [] => .ok ""
  | part :: parts => do .ok ((← render scopes part) ++ (← renderAll scopes parts))

end

end Template

end AlgebraBatch.Report
