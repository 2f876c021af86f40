import AlgebraBatch.Yaml.Scalar

/-!
# Writing YAML

`Yaml.write` writes a value in block style: every entry and every item on a line of its own, empty
collections in brackets. A list under a key is not indented further than the key. Scalars are folded
at single blanks past column 80. A plain scalar that is the whole document is followed by the mark
of the document's end.
-/

namespace AlgebraBatch.Yaml

open AlgebraBatch.Text

/-- What has been written, and how the last line stands. -/
structure Page where
  /-- The characters written, the last one first. -/
  reversed : List Char := []
  column : Nat := 0
  /-- The last character was a blank, a line break or the beginning. -/
  afterBlank : Bool := true
  /-- The line holds nothing but indentation and marks that count as such. -/
  indenting : Bool := true

namespace Page

/-- The column after which scalars are folded. -/
def width : Nat := 80

def put (p : Page) (cs : List Char) : Page :=
  { p with reversed := cs.reverse ++ p.reversed, column := p.column + cs.length }

def newLine (p : Page) (c : Char) : Page :=
  { reversed := c :: p.reversed, column := 0, afterBlank := true, indenting := true }

/-- Goes to a column, on a new line unless the present one is still before it. -/
def indentTo (p : Page) (n : Nat) : Page :=
  let p :=
    if !p.indenting || n < p.column || (p.column == n && !p.afterBlank) then p.newLine '\n' else p
  if p.column < n then { p.put (List.replicate (n - p.column) ' ') with afterBlank := true } else p

/-- Writes a mark, after a blank if it needs one. -/
def mark (p : Page) (cs : List Char) (needsBlank keepsIndenting : Bool) : Page :=
  let p' := p.put (if p.afterBlank || !needsBlank then cs else ' ' :: cs)
  { p' with afterBlank := false, indenting := p.indenting && keepsIndenting }

/-- The mark that stands before an item, a key or a value of its own line. -/
def blockMark (p : Page) (c : Char) : Page := p.mark [c] true true

/-! ## Scalars -/

/-- A text cut where the class of its characters changes. -/
def runs (cs : List Char) : List (List Char) :=
  cs.splitBy fun c d =>
    Scalar.isSpace c == Scalar.isSpace d && Scalar.isBreak c == Scalar.isBreak d

def isRunOf (p : Char → Bool) (cs : List Char) : Bool := cs.head?.any p

/-- Folds at a single blank past the width. -/
def putPlainRuns (indent : Nat) (split : Bool) : List (List Char) → Page → Page
  | [], p => p
  | r :: rs, p =>
    if r == [' '] && width < p.column && split then
      let p := { p.indentTo indent with afterBlank := false, indenting := false }
      putPlainRuns indent split rs p
    else putPlainRuns indent split rs (p.put r)

def putPlain (p : Page) (cs : List Char) (indent : Nat) (split : Bool) : Page :=
  if cs.isEmpty then p
  else
    let p := if p.afterBlank then p else p.put [' ']
    putPlainRuns indent split (runs cs) { p with afterBlank := false, indenting := false }

/-- Line breaks in single quotes: a line feed is written twice to count as one. -/
def putBreaks (p : Page) (r : List Char) (indent : Nat) : Page :=
  let p := if r.head? == some '\n' then p.newLine '\n' else p
  (r.foldl newLine p).indentTo indent

/-- Folds at a single blank past the width that is neither first nor last; doubles single quotes. -/
def putSingleRuns (indent : Nat) (split : Bool) : Bool → List (List Char) → Page → Page
  | _, [], p => p
  | first, r :: rs, p =>
    if isRunOf Scalar.isSpace r then
      if r.length == 1 && width < p.column && split && !first && !rs.isEmpty then
        putSingleRuns indent split false rs (p.indentTo indent)
      else putSingleRuns indent split false rs (p.put r)
    else if isRunOf Scalar.isBreak r then
      putSingleRuns indent split false rs (p.putBreaks r indent)
    else
      putSingleRuns indent split false rs
        (p.put (r.flatMap fun c => if c == '\'' then ['\'', '\''] else [c]))

def putSingle (p : Page) (cs : List Char) (indent : Nat) (split : Bool) : Page :=
  (putSingleRuns indent split true (runs cs) (p.mark ['\''] true false)).mark ['\''] false false

/-- The letters of escapes in double quotes. -/
def escapeLetters : List (Char × Char) :=
  [('\x00', '0'), ('\x07', 'a'), ('\x08', 'b'), ('\t', 't'), ('\n', 'n'), ('\x0b', 'v'),
    ('\x0c', 'f'), ('\r', 'r'), ('\x1b', 'e'), ('"', '"'), ('\\', '\\'), ('\u0085', 'N'),
    ('\u00a0', '_'), ('\u2028', 'L'), ('\u2029', 'P')]

/-- A character that double quotes hold as it is. -/
def isDirect (c : Char) : Bool :=
  let n := c.toNat
  c != '"' && c != '\\' && c != '\u2028' && c != '\u2029' && n != 0xfeff &&
    ((0x20 ≤ n && n ≤ 0x7e) || (0xa0 ≤ n && n ≤ 0xd7ff) || (0xe000 ≤ n && n ≤ 0xfffd))

def upperHex (width n : Nat) : List Char := (hexDigits width n).toList.map Char.toUpper

def escapeOf (c : Char) : List Char :=
  match escapeLetters.lookup c with
  | some l => ['\\', l]
  | none =>
    let n := c.toNat
    if n ≤ 0xff then '\\' :: 'x' :: upperHex 2 n
    else if n ≤ 0xffff then '\\' :: 'u' :: upperHex 4 n
    else '\\' :: 'U' :: upperHex 8 n

/-- Writes the text from `start` on, having looked at the characters before `stop`. A line is folded
with a backslash past the width, at a blank or after an escape. -/
def putDoubleFrom (cs : Array Char) (indent : Nat) (split : Bool) :
    Nat → Nat → Nat → Page → Page
  | 0, _, _, p => p
  | fuel + 1, start, stop, p =>
    let chunk (a b : Nat) : List Char := (cs.extract a b).toList
    let c? := cs[stop]?
    let (start, p) :=
      match c? with
      | none => (stop, if start < stop then p.put (chunk start stop) else p)
      | some c =>
        if isDirect c then (start, p)
        else
          let p := if start < stop then p.put (chunk start stop) else p
          (stop + 1, p.put (escapeOf c))
    let (start, p) :=
      if 0 < stop && stop + 1 < cs.size && (c? == some ' ' || stop ≤ start) &&
          width + start < p.column + stop && split then
        let p := p.put (chunk start stop ++ ['\\'])
        let start := max start stop
        let p := { p.indentTo indent with afterBlank := false, indenting := false }
        (start, if cs[start]? == some ' ' then p.put ['\\'] else p)
      else (start, p)
    if c?.isNone then p else putDoubleFrom cs indent split fuel start (stop + 1) p

def putDouble (p : Page) (cs : List Char) (indent : Nat) (split : Bool) : Page :=
  (putDoubleFrom cs.toArray indent split (cs.length + 1) 0 0 (p.mark ['"'] true false)).mark
    ['"'] false false

def putScalar (p : Page) (s : Scalar) (indent : Nat) (simpleKey : Bool) : Page :=
  let cs := s.text.toList
  match s.style simpleKey with
  | .plain => p.putPlain cs indent (!simpleKey)
  | .single => p.putSingle cs indent (!simpleKey)
  | .double => p.putDouble cs indent (!simpleKey)

/-! ## Collections -/

/-- The indentation of a level below. At the top a collection is not indented and a scalar is. -/
def deeper (collection : Bool) : Option Nat → Nat
  | none => if collection then 0 else 2
  | some n => n + 2

/-- A key and the colon after it. A key that cannot stand on one line has a mark of its own. -/
def putKey (p : Page) (key : Scalar) (indent : Nat) : Page :=
  let p := p.indentTo indent
  if key.isSimpleKey then (p.putScalar key (indent + 2) true).mark [':'] false false
  else (((p.blockMark '?').putScalar key (indent + 2) false).indentTo indent).blockMark ':'

mutual

/-- Writes a value. `underKey` says that it is the value of a key. -/
def putNode (indent : Option Nat) (underKey : Bool) : Datum → Page → Page
  | .list [], p => (p.mark ['['] true false).mark [']'] false false
  | .map [], p => (p.mark ['\x7b'] true false).mark ['\x7d'] false false
  | .list (x :: xs), p =>
    let level := if underKey && !p.indenting && indent.isSome then indent.getD 0
      else deeper true indent
    putItems level (x :: xs) p
  | .map (e :: es), p => putEntries (deeper true indent) (e :: es) p
  | d, p =>
    match Scalar.ofDatum? d with
    | some s => p.putScalar s (deeper false indent) false
    | none => p

def putItems (indent : Nat) : List Datum → Page → Page
  | [], p => p
  | d :: ds, p =>
    putItems indent ds (putNode (some indent) false d ((p.indentTo indent).blockMark '-'))

def putEntries (indent : Nat) : List (Datum × Datum) → Page → Page
  | [], p => p
  | (k, v) :: es, p =>
    let key := (Scalar.ofDatum? k).getD ⟨"", .text, 5⟩
    putEntries indent es (putNode (some indent) true v (p.putKey key indent))

end

end Page

/-- The value is written as a plain scalar. -/
def isPlainScalar (d : Datum) : Bool :=
  match Scalar.ofDatum? d with
  | some s => s.style false == .plain
  | none => false

/-- The YAML text of a value. -/
def write (d : Datum) : String :=
  let p := (Page.putNode none false d {}).indentTo 0
  let p := if isPlainScalar d then (p.put ['.', '.', '.']).newLine '\n' else p
  String.ofList p.reversed.reverse

end AlgebraBatch.Yaml
