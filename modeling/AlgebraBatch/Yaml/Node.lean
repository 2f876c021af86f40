import AlgebraBatch.Yaml.Resolve
import AlgebraBatch.Yaml.Token

/-!
# Reading YAML

`Node.ofTokens` builds the tree of the one document that a text may hold: scalars, sequences and
mappings, where a value that is left out is an empty scalar. `Node.construct` gives the tree its
values. `Yaml.read` does all of it. A fault among the tokens counts if everything before it fits; if
something before it does not, the text is malformed. Of a key that comes twice the last value
counts; lists and maps are no keys; a merge key puts the entries of other maps before those of its
own map.
-/

namespace AlgebraBatch.Yaml

inductive Node where
  | scalar (text : String) (plain : Bool)
  | sequence (items : List Node)
  | mapping (entries : List (Node × Node))
  deriving Repr, Inhabited

namespace Node

/-- A value that is left out. -/
def empty : Node := scalar "" true

def startsWith (ts : List Token) (stops : List Token) : Bool :=
  match ts with
  | [] => true
  | t :: _ => stops.contains t

/-- What is made of tokens, or else the tokens from the first one on that does not fit. -/
abbrev Fit := Except (List Token)

/-- The tokens of an item of a flow collection, which a comma separates from the one before it. -/
def afterSeparator (first : Bool) (ts : List Token) : Fit (List Token) :=
  if first then .ok ts
  else match ts with
    | .flowEntry :: ts => .ok ts
    | _ => .error ts

mutual

/-- A node. Block collections only stand in block context; `indentless` also admits a sequence that
is not indented further than its key. -/
def parse (block indentless : Bool) : Nat → List Token → Fit (Node × List Token)
  | 0, _ => .error []
  | fuel + 1, ts =>
    match ts with
    | .blockEntry :: _ =>
      if indentless then (parseIndentless fuel ts).map fun (xs, ts) => (sequence xs, ts)
      else .error ts
    | .scalar text plain :: ts => .ok (scalar text plain, ts)
    | .flowSequenceStart :: ts =>
      (parseFlowItems true fuel ts).map fun (xs, ts) => (sequence xs, ts)
    | .flowMappingStart :: ts =>
      (parseFlowEntries true fuel ts).map fun (es, ts) => (mapping es, ts)
    | .blockSequenceStart :: rest =>
      if block then (parseBlockItems fuel rest).map fun (xs, ts) => (sequence xs, ts)
      else .error ts
    | .blockMappingStart :: rest =>
      if block then (parseBlockEntries fuel rest).map fun (es, ts) => (mapping es, ts)
      else .error ts
    | _ => .error ts

/-- A node, or an empty one if one of the tokens in `stops` comes instead. -/
def parseOr (block indentless : Bool) (stops : List Token) :
    Nat → List Token → Fit (Node × List Token)
  | 0, _ => .error []
  | fuel + 1, ts =>
    if startsWith ts stops then .ok (empty, ts) else parse block indentless fuel ts

def parseBlockItems : Nat → List Token → Fit (List Node × List Token)
  | 0, _ => .error []
  | fuel + 1, ts =>
    match ts with
    | .blockEntry :: ts => do
      let (x, ts) ← parseOr true false [.blockEntry, .blockEnd] fuel ts
      let (xs, ts) ← parseBlockItems fuel ts
      .ok (x :: xs, ts)
    | .blockEnd :: ts => .ok ([], ts)
    | _ => .error ts

def parseIndentless : Nat → List Token → Fit (List Node × List Token)
  | 0, _ => .error []
  | fuel + 1, ts =>
    match ts with
    | .blockEntry :: ts => do
      let (x, ts) ← parseOr true false [.blockEntry, .key, .value, .blockEnd] fuel ts
      let (xs, ts) ← parseIndentless fuel ts
      .ok (x :: xs, ts)
    | _ => .ok ([], ts)

def parseBlockEntries : Nat → List Token → Fit (List (Node × Node) × List Token)
  | 0, _ => .error []
  | fuel + 1, ts =>
    match ts with
    | .key :: ts => do
      let (k, ts) ← parseOr true true [.key, .value, .blockEnd] fuel ts
      let (v, ts) ← parseBlockValue fuel ts
      let (es, ts) ← parseBlockEntries fuel ts
      .ok ((k, v) :: es, ts)
    | .blockEnd :: ts => .ok ([], ts)
    | _ => .error ts

def parseBlockValue : Nat → List Token → Fit (Node × List Token)
  | 0, _ => .error []
  | fuel + 1, ts =>
    match ts with
    | .value :: ts => parseOr true true [.key, .value, .blockEnd] fuel ts
    | _ => .ok (empty, ts)

/-- The items of a flow sequence. A key in it stands for a mapping of one entry. -/
def parseFlowItems (first : Bool) : Nat → List Token → Fit (List Node × List Token)
  | 0, _ => .error []
  | fuel + 1, ts =>
    match ts with
    | .flowSequenceEnd :: ts => .ok ([], ts)
    | _ => do
      let ts ← afterSeparator first ts
      match ts with
      | .flowSequenceEnd :: ts => .ok ([], ts)
      | .key :: ts =>
        let (k, ts) ← parseOr false false [.value, .flowEntry, .flowSequenceEnd] fuel ts
        let (v, ts) ← parseFlowValue [.flowEntry, .flowSequenceEnd] fuel ts
        let (xs, ts) ← parseFlowItems false fuel ts
        .ok (mapping [(k, v)] :: xs, ts)
      | ts =>
        let (x, ts) ← parse false false fuel ts
        let (xs, ts) ← parseFlowItems false fuel ts
        .ok (x :: xs, ts)

def parseFlowValue (stops : List Token) : Nat → List Token → Fit (Node × List Token)
  | 0, _ => .error []
  | fuel + 1, ts =>
    match ts with
    | .value :: ts => parseOr false false stops fuel ts
    | _ => .ok (empty, ts)

def parseFlowEntries (first : Bool) : Nat → List Token → Fit (List (Node × Node) × List Token)
  | 0, _ => .error []
  | fuel + 1, ts =>
    match ts with
    | .flowMappingEnd :: ts => .ok ([], ts)
    | _ => do
      let ts ← afterSeparator first ts
      match ts with
      | .flowMappingEnd :: ts => .ok ([], ts)
      | .key :: ts =>
        let (k, ts) ← parseOr false false [.value, .flowEntry, .flowMappingEnd] fuel ts
        let (v, ts) ← parseFlowValue [.flowEntry, .flowMappingEnd] fuel ts
        let (es, ts) ← parseFlowEntries false fuel ts
        .ok ((k, v) :: es, ts)
      | ts =>
        let (k, ts) ← parse false false fuel ts
        let (es, ts) ← parseFlowEntries false fuel ts
        .ok ((k, empty) :: es, ts)

end

def isDirective : Token → Bool
  | .version _ => true
  | .directive => true
  | _ => false

/-- Directives name the version at most once, and the first number of it is one. -/
def admitsDirectives (ts : List Token) : Bool :=
  match ts.filter (· != .directive) with
  | [] => true
  | [t] => t == .version 1
  | _ => false

/-- The tokens after the directives, which a document mark must follow. -/
def skipDirectives (ts : List Token) : Fit (List Token) :=
  let rest := ts.dropWhile isDirective
  if rest.length == ts.length then .ok ts
  else if !admitsDirectives (ts.takeWhile isDirective) then .error ts
  else if rest.head? == some .documentStart then .ok rest
  else .error rest

/-- Nothing but ends of documents may follow the document. -/
def endStream (ts : List Token) : Fit Unit :=
  match ts.dropWhile (· == .documentEnd) with
  | [] => .ok ()
  | ts => (skipDirectives ts).bind .error

/-- The node of a stream of tokens with at most one document; none inside if it has no document. -/
def ofTokens (ts : List Token) : Fit (Option Node) := do
  let ts ← skipDirectives ts
  let fuel := 4 * ts.length + 4
  match ts with
  | [] => .ok none
  | .documentStart :: ts =>
    let (node, ts) ←
      if ts.head?.any isDirective then .ok (empty, ts)
      else parseOr true false [.documentStart, .documentEnd] fuel ts
    endStream ts
    .ok (some node)
  | ts =>
    let (node, ts) ← parse true false fuel ts
    endStream ts
    .ok (some node)

/-! ## Values -/

/-- The key that merges other maps into its map. -/
def isMergeKey : Node → Bool
  | scalar text true => resolve text == .merge
  | _ => false

def entries? : Node → Option (List (Node × Node))
  | mapping es => some es
  | _ => none

/-- The entries that a merge key brings in. -/
def mergedEntries : Node → Option (List (Node × Node))
  | mapping es => some es
  | sequence nodes => (nodes.mapM entries?).map fun ess => ess.reverse.flatten
  | _ => none

/-- The entries with those of merged maps before them. -/
def flattened (es : List (Node × Node)) : Option (List (Node × Node)) := do
  let merged ← (es.filter (isMergeKey ·.1)).mapM fun (_, v) => mergedEntries v
  some (merged.flatten ++ es.filter fun (k, _) => !isMergeKey k)

def constructScalar (text : String) (plain : Bool) : Except Failure Datum :=
  if plain then
    match Yaml.construct text with
    | .ok (some d) => .ok d
    | .ok none => .error .malformed
    | .error f => .error (.fault f)
  else .ok (.str text)

def failureOf? {α : Type} : Except Failure α → Option Failure
  | .ok _ => none
  | .error f => some f

/-- The value of a key; the default value key stands for its text. -/
def constructKey : Node → Except Failure Datum
  | scalar text plain =>
    if plain && resolve text == .default then .ok (.str text) else constructScalar text plain
  | _ => .error .malformed

/-- The key and the value of an entry, of which `value` makes the value. -/
def entryBy (value : Node → Except Failure Datum) (entry : Node × Node) :
    Except Failure (Datum × Datum) := do
  let k ← constructKey entry.1
  let v ← value entry.2
  .ok (k, v)

/-- The value of a node; the number bounds its depth. -/
def value : Nat → Node → Except Failure Datum
  | _, scalar text plain => constructScalar text plain
  | 0, _ => .error .malformed
  | fuel + 1, sequence items => (items.mapM (value fuel)).map .list
  | fuel + 1, mapping es =>
    match flattened es with
    | none => .error .malformed
    | some es => (es.mapM (entryBy (value fuel))).map .ofEntries

/-- The failure of a key, and if it has none that of a scalar beside it. -/
def entryFailure? (entry : Node × Node) : Option Failure :=
  match constructKey entry.1, entry.2 with
  | .error f, _ => some f
  | .ok _, scalar text plain => failureOf? (constructScalar text plain)
  | .ok _, _ => none

/-- The first failure so many levels below a node, among the scalars there and the keys beside
them. -/
def failureAt? : Nat → Node → Option Failure
  | 0, scalar text plain => failureOf? (constructScalar text plain)
  | 1, mapping es =>
    match flattened es with
    | none => some .malformed
    | some es => es.findSome? entryFailure?
  | depth + 1, sequence items => items.findSome? (failureAt? depth)
  | depth + 1, mapping es => ((flattened es).getD []).findSome? fun (_, v) => failureAt? depth v
  | _, _ => none

/-- The value of a node no deeper than the number. Of several failures the one nearest to the root
is told, and of those the first. -/
def construct (depth : Nat) (node : Node) : Except Failure Datum :=
  match value depth node with
  | .ok d => .ok d
  | .error f => .error (((List.range (depth + 1)).findSome? (failureAt? · node)).getD f)

end Node

/-- The value of a YAML text. A text with an anchor, an alias, a tag or a block scalar is malformed to
this reader, though others read it. -/
def read : Reader Datum := fun text => do
  let ts ← Token.ofText text
  match Node.ofTokens ts with
  | .error (.fault f :: _) => .error (.fault f)
  | .error _ => .error .malformed
  | .ok none => .ok .null
  | .ok (some node) => node.construct (ts.length + 1)

end AlgebraBatch.Yaml
