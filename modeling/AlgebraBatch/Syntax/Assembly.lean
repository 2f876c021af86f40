import AlgebraBatch.Content.Basic
import AlgebraBatch.Datum.Display
import AlgebraBatch.Datum.Number

/-!
# Assembling trees from records

A syntax tree may also come as plain data: records with a tag, a text, children and a place.
`assemble` makes the tree of such a record. It trusts nothing: a missing field, a value of the wrong
shape, a wrong number of children and an unknown tag are faults. Lists of records give lists, and
anything that is no record stands for itself, in place of a node too. `place?` is the place that the
record of the resulting node carries.
-/

namespace AlgebraBatch.Syntax

open AlgebraBatch.Text

namespace Assembly

mutual

def size : Datum → Nat
  | .list items => sizeItems items + 1
  | .map entries => sizeEntries entries + 1
  | _ => 1

def sizeItems : List Datum → Nat
  | [] => 0
  | d :: ds => size d + sizeItems ds

def sizeEntries : List (Datum × Datum) → Nat
  | [] => 0
  | (_, d) :: es => size d + sizeEntries es

end

/-- The value of a field that a record must have. -/
def field (name : String) : Datum → Except Fault Datum
  | .map entries =>
    match Datum.lookup (.str name) entries with
    | some d => .ok d
    | none => .error .missingKey
  | _ => .error .wrongType

/-- The value of a field that a record need not have. -/
def fieldOr (name : String) (default : Datum) (record : Datum) : Datum :=
  (record.field? name).getD default

/-- The records among the children. A single child need not stand in a list. -/
def childrenOf : Datum → Except Fault (List Datum)
  | .null => .ok []
  | .map entries => .ok [.map entries]
  | d => match d.elements? with
    | some ds => .ok ds
    | none => .error .wrongType

/-- Takes a list of exactly two apart. -/
def exactlyTwo {α : Type} : List α → Except Fault (α × α)
  | [a, b] => .ok (a, b)
  | [] => .error (.badValue "not enough values to unpack (expected 2, got 0)")
  | [_] => .error (.badValue "not enough values to unpack (expected 2, got 1)")
  | _ => .error (.badValue "too many values to unpack (expected 2)")

def exactlyOne {α : Type} : List α → Except Fault α
  | [a] => .ok a
  | [] => .error (.badValue "not enough values to unpack (expected 1, got 0)")
  | _ => .error (.badValue "too many values to unpack (expected 1)")

def textOf : Datum → Except Fault String
  | .str s => .ok s
  | _ => .error .wrongType

def floatOf : Datum → Except Fault Shape
  | .str s => do
    let spelled := s.toList.map fun c => if c == 'b' || c == 'B' then 'e' else c
    let x ← (Numeral.readFloat (String.ofList spelled)).mapError .numeral
    .ok (.float x (.str s))
  | _ => .error .missingMember

/-- The operator that an operation has, whichever way it was spelled. -/
def operatorOf : Datum → Datum
  | .str s => .str (operatorName s)
  | d => d

/-- What builds the content of a record. -/
abbrev Builder := Datum → Except Fault Content

/-- The contents of the records among the children. -/
def itemsBy (build : Builder) (children : Datum) : Except Fault (List Content) := do
  (← childrenOf children).mapM build

/-- The atom of a record. -/
def atomBy (shape : Datum → Except Fault Shape) (record : Datum) : Except Fault Content := do
  .ok (.node (← shape (← field "text" record)) [])

/-- The tree of a record, of which `build` builds the parts. A group stands for what is in it. -/
def treeBy (build : Builder) (record : Datum) : Except Fault Content := do
  let children := fieldOr "children" (.list []) record
  let items := itemsBy build
  match fieldOr "tag" .null record with
  | .str "root" => (items children).map (.node .root)
  | .str "group" =>
    let cs ← items children
    match cs with
    | [c] => .ok c
    | _ => .error (.badValue
        ("Parenthesised group must hold one expression, got " ++ toString cs.length))
  | .str "binary_op" =>
    let op ← field "text" (← field "op" record)
    let l ← build (← field "left" record)
    let r ← build (← field "right" record)
    .ok (.node (.operation (operatorOf op)) [l, r])
  | .str "prefix_op" =>
    match children.elements? with
    | none => .error .wrongType
    | some ds =>
      let (op, operand) ← exactlyTwo ds
      let op ← field "text" op
      .ok (.node (.prefixed op) [← build operand])
  | .str "factorial" =>
    .ok (.node (.postfixed (.str "!")) [← exactlyOne (← items children)])
  | .str "call" =>
    let head ← build (← field "name" children)
    .ok (.node .call (head :: (← items (fieldOr "arguments" .null children))))
  | .str "indexed" =>
    let target ← build (← field "target" children)
    .ok (.node .indexed (target :: (← items (fieldOr "indices" .null children))))
  | .str "conditional" =>
    (items children).map fun cs => .node .conditional (Content.closeBranches cs)
  | .str "list" => (items children).map (.node .list)
  | .str "set" => (items children).map (.node .set)
  | .str "integer" => atomBy (fun d => d.toInteger.map .integer) record
  | .str "float" => atomBy floatOf record
  | .str "string" =>
    atomBy (fun d => (textOf d).map fun s =>
      .string (.str (String.ofList (Literal.unquote s.toList)))) record
  | .str "boolean" => atomBy (fun d => .ok (.boolean (.bool (d.equal (.str "true"))))) record
  | .str "identifier" => atomBy (fun d => .ok (.identifier d)) record
  | d => .error (.unknownTag d.display)

/-- The content of plain data. A record lies deeper than the data in it, so the number that bounds
the depth is not reached. -/
def build : Nat → Builder
  | 0, _ => .error .wrongType
  | fuel + 1, .list items => (items.mapM (build fuel)).map .ofItems
  | fuel + 1, .map entries => treeBy (build fuel) (.map entries)
  | _, d => .ok (.datum d)

/-- The tags whose nodes keep no place of their own. -/
def isTransparent (tag : Datum) : Bool :=
  tag.equal (.str "root") || tag.equal (.str "group")

/-- Line, column, tag and text of the record that gives the resulting node. -/
def placeIn : Nat → Datum → Option (List Datum)
  | 0, _ => none
  | fuel + 1, .map entries =>
    let record := Datum.map entries
    let get (name : String) : Datum := fieldOr name .null record
    if (get "tag").equal (.str "group") then
      match childrenOf (get "children") with
      | .ok [child] => placeIn fuel child
      | _ => none
    else if isTransparent (get "tag") then none
    else
      match get "line", get "col" with
      | .null, _ => none
      | _, .null => none
      | line, column => some [line, column, get "tag", get "text"]
  | _, _ => none

end Assembly

/-- The tree of a record. -/
def assemble (d : Datum) : Except Fault Content :=
  Assembly.build (Assembly.size d + 1) d

/-- The place of the tree of a record. -/
def place? (d : Datum) : Option (List Datum) :=
  Assembly.placeIn (Assembly.size d + 1) d

end AlgebraBatch.Syntax
