import AlgebraBatch.Fault
import AlgebraBatch.Json.Reader
import AlgebraBatch.Text.Digit

/-!
# Tokens of YAML

`Token.ofText` cuts a text into tokens: document marks, brackets and marks of flow and block
collections, keys, values and scalars. Indentation opens and closes block collections. A scalar or a
flow collection that could be the key of a mapping is noted as pending; the colon after it puts the
key mark, and the start of a mapping if the indentation calls for one, before it. A token whose text
has no value is the last one and carries the fault, so that whoever reads the tokens meets it in its
place. Anchors, aliases, tags and block scalars are not read.

`Reader` is the kind of function that `Yaml.read` is. Whatever uses a reader only for what it says of
a text takes any other one as well.
-/

namespace AlgebraBatch.Yaml

inductive Token where
  /-- The version of the format, by its first number. -/
  | version (major : Nat)
  /-- A directive of another name, which means nothing. -/
  | directive
  | documentStart
  | documentEnd
  | blockSequenceStart
  | blockMappingStart
  | blockEnd
  | flowSequenceStart
  | flowSequenceEnd
  | flowMappingStart
  | flowMappingEnd
  | flowEntry
  | blockEntry
  | key
  | value
  | scalar (text : String) (plain : Bool)
  /-- A token that has no value; none comes after it. -/
  | fault (f : Fault)
  deriving DecidableEq, Repr

/-- What keeps a text from being read: it is no YAML, or something in it has the form of a value and
no value, which has a fault of its own. -/
inductive Failure where
  | malformed
  | fault (f : Fault)
  deriving DecidableEq, Repr

/-- What reads YAML makes a value of each text that it can read. -/
abbrev Reader (α : Type) := String → Except Failure α

/-- The faults with which a reader ends are its own: none is a report of the library, of which a
reader of YAML does not know. -/
def Reader.KeepsToItself {α : Type} (read : Reader α) : Prop :=
  ∀ text f, read text = .error (.fault f) → f.isReport = false

namespace Token

/-! ## Characters -/

def isLineBreak (c : Char) : Bool :=
  c == '\n' || c == '\r' || c == '\u0085' || c == '\u2028' || c == '\u2029'

/-- A line break, a blank or the end of the text comes next. -/
def atGap : List Char → Bool
  | [] => true
  | c :: _ => c == ' ' || c == '\t' || isLineBreak c

/-- The characters that a text may hold. -/
def isAllowed (c : Char) : Bool :=
  let n := c.toNat
  n == 9 || n == 10 || n == 13 || (0x20 ≤ n && n ≤ 0x7e) || n == 0x85 ||
    (0xa0 ≤ n && n ≤ 0xd7ff) || (0xe000 ≤ n && n ≤ 0xfffd) || 0x10000 ≤ n

/-- What is left of the text, and where it begins. -/
structure Cursor where
  rest : List Char
  index : Nat := 0
  line : Nat := 0
  column : Nat := 0
  deriving Repr

namespace Cursor

/-- Goes over one character. -/
def next (cur : Cursor) : Cursor :=
  match cur.rest with
  | [] => cur
  | c :: cs =>
    if isLineBreak c && !(c == '\r' && cs.head? == some '\n') then
      ⟨cs, cur.index + 1, cur.line + 1, 0⟩
    else ⟨cs, cur.index + 1, cur.line, if c == '\ufeff' then cur.column else cur.column + 1⟩

def skip : Nat → Cursor → Cursor
  | 0, cur => cur
  | n + 1, cur => skip n cur.next

def peek? (cur : Cursor) : Option Char := cur.rest.head?

/-- Goes over the characters of a class. -/
def skipWhile (p : Char → Bool) (cur : Cursor) : Cursor :=
  cur.skip (cur.rest.takeWhile p).length

/-- Goes over a line break and gives the characters that it counts as. -/
def lineBreak? (cur : Cursor) : Option (Char × Cursor) :=
  match cur.rest with
  | '\r' :: '\n' :: _ => some ('\n', cur.skip 2)
  | c :: _ =>
    if c == '\u2028' || c == '\u2029' then some (c, cur.next)
    else if isLineBreak c then some ('\n', cur.next)
    else none
  | [] => none

/-- A document mark stands here. -/
def atDocumentMark (cur : Cursor) : Bool :=
  match cur.rest with
  | '-' :: '-' :: '-' :: cs => atGap cs
  | '.' :: '.' :: '.' :: cs => atGap cs
  | _ => false

end Cursor

/-- A place where a key may have begun. -/
structure Pending where
  tokenNumber : Nat
  required : Bool
  index : Nat
  line : Nat
  column : Nat
  deriving Repr

structure Scan where
  cursor : Cursor
  flowLevel : Nat := 0
  tokens : Array Token := #[]
  indent : Int := -1
  indents : List Int := []
  /-- A key may begin here. -/
  allowKey : Bool := true
  /-- The pending key of each flow level that has one. -/
  pending : List (Nat × Pending) := []
  deriving Repr

abbrev Step := Except Failure Scan

namespace Scan

def push (s : Scan) (t : Token) : Scan := { s with tokens := s.tokens.push t }

def forward (s : Scan) (n : Nat) : Scan := { s with cursor := s.cursor.skip n }

/-! ## Pending keys -/

/-- Keys do not reach over a line end, nor further than 1024 characters. -/
def isStale (s : Scan) (p : Pending) : Bool :=
  p.line != s.cursor.line || p.index + 1024 < s.cursor.index

def dropStale (s : Scan) : Step :=
  if s.pending.any fun (_, p) => s.isStale p && p.required then .error .malformed
  else .ok { s with pending := s.pending.filter fun (_, p) => !s.isStale p }

def dropPending (s : Scan) : Step :=
  match s.pending.lookup s.flowLevel with
  | none => .ok s
  | some p =>
    if p.required then .error .malformed
    else .ok { s with pending := s.pending.filter (·.1 != s.flowLevel) }

def savePending (s : Scan) : Step :=
  if !s.allowKey then .ok s
  else do
    let required := s.flowLevel == 0 && s.indent == s.cursor.column
    let s ← s.dropPending
    let p : Pending := ⟨s.tokens.size, required, s.cursor.index, s.cursor.line, s.cursor.column⟩
    .ok { s with pending := (s.flowLevel, p) :: s.pending }

/-! ## Indentation -/

/-- The indentations that a column leaves, the innermost first, and those that remain. -/
def leave (column : Int) : Int → List Int → Nat × Int × List Int
  | indent, [] => (0, indent, [])
  | indent, outer :: rest =>
    if column < indent then
      let (n, i, is) := leave column outer rest
      (n + 1, i, is)
    else (0, indent, outer :: rest)

/-- Closes the block collections that are indented further than the column. -/
def unwind (s : Scan) (column : Int) : Scan :=
  if s.flowLevel != 0 then s
  else
    let (n, indent, indents) := leave column s.indent s.indents
    { s with
      indent, indents,
      tokens := (List.replicate n Token.blockEnd).foldl Array.push s.tokens }

/-- Opens a level of indentation, unless the column is not beyond the present one. -/
def deepen (s : Scan) (column : Int) : Bool × Scan :=
  if s.indent < column then (true, { s with indents := s.indent :: s.indents, indent := column })
  else (false, s)

/-- Opens a block collection at the cursor if it is indented further. -/
def openBlock (s : Scan) (t : Token) : Scan :=
  let (isNew, s) := s.deepen s.cursor.column
  if isNew then s.push t else s

/-! ## Marks -/

def documentMark (s : Scan) (t : Token) : Step := do
  let s ← (s.unwind (-1)).dropPending
  .ok (({ s with allowKey := false }.forward 3).push t)

def flowStart (s : Scan) (t : Token) : Step := do
  let s ← s.savePending
  .ok (({ s with flowLevel := s.flowLevel + 1, allowKey := true }.forward 1).push t)

def flowEnd (s : Scan) (t : Token) : Step := do
  if s.flowLevel == 0 then .error .malformed
  else
    let s ← s.dropPending
    .ok (({ s with flowLevel := s.flowLevel - 1, allowKey := false }.forward 1).push t)

def flowEntry (s : Scan) : Step := do
  let s ← { s with allowKey := true }.dropPending
  .ok ((s.forward 1).push .flowEntry)

def blockEntry (s : Scan) : Step := do
  if s.flowLevel == 0 && !s.allowKey then .error .malformed
  else
    let s := if s.flowLevel == 0 then s.openBlock .blockSequenceStart else s
    let s ← { s with allowKey := true }.dropPending
    .ok ((s.forward 1).push .blockEntry)

def keyMark (s : Scan) : Step := do
  if s.flowLevel == 0 && !s.allowKey then .error .malformed
  else
    let s := if s.flowLevel == 0 then s.openBlock .blockMappingStart else s
    let s ← { s with allowKey := s.flowLevel == 0 }.dropPending
    .ok ((s.forward 1).push .key)

/-- Puts a token before the one of the given number. -/
def insertToken (s : Scan) (number : Nat) (t : Token) : Scan :=
  { s with tokens := (s.tokens.extract 0 number).push t ++ s.tokens.extract number s.tokens.size }

def valueMark (s : Scan) : Step := do
  match s.pending.lookup s.flowLevel with
  | some p =>
    let s := { s with pending := s.pending.filter (·.1 != s.flowLevel), allowKey := false }
    let s := s.insertToken p.tokenNumber .key
    let s :=
      if s.flowLevel == 0 then
        let (isNew, s) := s.deepen p.column
        if isNew then s.insertToken p.tokenNumber .blockMappingStart else s
      else s
    .ok ((s.forward 1).push .value)
  | none =>
    if s.flowLevel == 0 && !s.allowKey then .error .malformed
    else
      let s := if s.flowLevel == 0 then s.openBlock .blockMappingStart else s
      let s ← { s with allowKey := s.flowLevel == 0 }.dropPending
      .ok ((s.forward 1).push .value)

end Scan

/-! ## Plain scalars -/

/-- The marks of flow collections. -/
def isFlowMark (c : Char) : Bool :=
  c == ',' || c == '[' || c == ']' || c == '\x7b' || c == '\x7d'

/-- A plain scalar ends before this text. -/
def endsPlain (inFlow : Bool) : List Char → Bool
  | [] => true
  | c :: cs =>
    atGap [c] ||
      (c == ':' && (atGap cs || (inFlow && isFlowMark (cs.headD ' ')))) ||
      (inFlow && (c == '?' || isFlowMark c))

def plainRun (inFlow : Bool) : List Char → List Char
  | [] => []
  | c :: cs => if endsPlain inFlow (c :: cs) then [] else c :: plainRun inFlow cs

/-- The line breaks and indentation after a line break. None if a document mark begins a line. -/
def plainBreaks : Nat → Cursor → Option (List Char × Cursor)
  | 0, cur => some ([], cur)
  | fuel + 1, cur =>
    if cur.peek? == some ' ' then plainBreaks fuel cur.next
    else match cur.lineBreak? with
      | none => some ([], cur)
      | some (b, cur) =>
        if cur.atDocumentMark then none
        else (plainBreaks fuel cur).map fun (bs, cur) => (b :: bs, cur)

/-- How a line break and further ones are folded: a single line feed becomes a blank. -/
def fold (first : Char) (more : List Char) : List Char :=
  if first != '\n' then first :: more else if more.isEmpty then [' '] else more

/-- What stands between two parts of a plain scalar, the cursor after it, and whether a line ended.
Empty if the scalar ends here. -/
def plainGap (cur : Cursor) : List Char × Cursor × Bool :=
  let blanks := cur.rest.takeWhile (· == ' ')
  let cur := cur.skip blanks.length
  match cur.lineBreak? with
  | none => (blanks, cur, false)
  | some (b, cur) =>
    if cur.atDocumentMark then ([], cur, true)
    else match plainBreaks (cur.rest.length + 1) cur with
      | none => ([], cur.skip (cur.rest.takeWhile fun c => c == ' ' || isLineBreak c).length, true)
      | some (bs, cur) => (fold b bs, cur, true)

/-- The text of a plain scalar from the cursor on. `gap` stands before the next part. -/
def plainParts (inFlow : Bool) (indent : Int) :
    Nat → List Char → Cursor → Bool → List Char × Cursor × Bool
  | 0, _, cur, lineEnded => ([], cur, lineEnded)
  | fuel + 1, gap, cur, lineEnded =>
    if cur.peek? == some '#' then ([], cur, lineEnded)
    else
      let run := plainRun inFlow cur.rest
      if run.isEmpty then ([], cur, lineEnded)
      else
        let (nextGap, cur, ended) := plainGap (cur.skip run.length)
        if nextGap.isEmpty || cur.peek? == some '#' || (!inFlow && cur.column < indent) then
          (gap ++ run, cur, ended)
        else
          let (more, cur, ended) := plainParts inFlow indent fuel nextGap cur ended
          (gap ++ run ++ more, cur, ended)

/-! ## Quoted scalars -/

/-- The characters that a letter after a backslash stands for. -/
def escapes : List (Char × Char) :=
  [('0', '\x00'), ('a', '\x07'), ('b', '\x08'), ('t', '\t'), ('\t', '\t'), ('n', '\n'),
    ('v', '\x0b'), ('f', '\x0c'), ('r', '\r'), ('e', '\x1b'), (' ', ' '), ('"', '"'),
    ('\\', '\\'), ('/', '/'), ('N', '\u0085'), ('_', '\u00a0'), ('L', '\u2028'), ('P', '\u2029')]

/-- The number of hexadecimal digits after a letter. -/
def escapeLengths : List (Char × Nat) := [('x', 2), ('u', 4), ('U', 8)]

/-- The character of a code point; a surrogate is none and gives U+FFFD. -/
def charOfCode (n : Nat) : Except Failure Char :=
  if 0x80000000 ≤ n then .error (.fault .tooLarge)
  else if 0x110000 ≤ n then .error (.fault (.badValue "chr() arg not in range(0x110000)"))
  else .ok (Json.unitChar n)

/-- The character of an escape with so many hexadecimal digits. -/
def hexEscape (length : Nat) (cs : List Char) : Except Failure Char :=
  match (cs.take length).mapM Json.hexValue? with
  | some ds =>
    if ds.length == length then charOfCode (ds.foldl (fun n d => n * 16 + d) 0)
    else .error .malformed
  | none => .error .malformed

/-- Line breaks in a quoted scalar, with the blanks around them left out. -/
def quotedBreaks : Nat → Cursor → Except Failure (List Char × Cursor)
  | 0, cur => .ok ([], cur)
  | fuel + 1, cur =>
    if cur.atDocumentMark then .error .malformed
    else
      let cur := cur.skipWhile fun c => c == ' ' || c == '\t'
      match cur.lineBreak? with
      | none => .ok ([], cur)
      | some (b, cur) => (quotedBreaks fuel cur).map fun (bs, cur) => (b :: bs, cur)

/-- The text of a quoted scalar after its opening quote, and the cursor after the closing one. -/
def quotedText (double : Bool) : Nat → Cursor → Except Failure (List Char × Cursor)
  | 0, _ => .error .malformed
  | fuel + 1, cur =>
    match cur.rest with
    | [] => .error .malformed
    | c :: cs =>
      if c == ' ' || c == '\t' || isLineBreak c then do
        let blanks := cur.rest.takeWhile fun c => c == ' ' || c == '\t'
        let cur := cur.skip blanks.length
        match cur.lineBreak? with
        | none =>
          if cur.rest.isEmpty then .error .malformed
          else
            let (s, cur) ← quotedText double fuel cur
            .ok (blanks ++ s, cur)
        | some (b, cur) =>
          let (bs, cur) ← quotedBreaks (cur.rest.length + 1) cur
          let (s, cur) ← quotedText double fuel cur
          .ok (fold b bs ++ s, cur)
      else if !double && c == '\'' then
        if cs.head? == some '\'' then do
          let (s, cur) ← quotedText double fuel (cur.skip 2)
          .ok ('\'' :: s, cur)
        else .ok ([], cur.next)
      else if double && c == '"' then .ok ([], cur.next)
      else if double && c == '\\' then
        match cs with
        | [] => .error .malformed
        | e :: ds =>
          match escapes.lookup e, escapeLengths.lookup e with
          | some d, _ => do
            let (s, cur) ← quotedText double fuel (cur.skip 2)
            .ok (d :: s, cur)
          | none, some length => do
            let d ← hexEscape length ds
            let (s, cur) ← quotedText double fuel (cur.skip (2 + length))
            .ok (d :: s, cur)
          | none, none =>
            match cur.next.lineBreak? with
            | none => .error .malformed
            | some (_, cur) => do
              let (bs, cur) ← quotedBreaks (cur.rest.length + 1) cur
              let (s, cur) ← quotedText double fuel cur
              .ok (bs ++ s, cur)
      else do
        let (s, cur) ← quotedText double fuel cur.next
        .ok (c :: s, cur)

namespace Scan

def quotedScalar (s : Scan) (double : Bool) : Step := do
  let s ← s.savePending
  let (text, cursor) ← quotedText double (s.cursor.rest.length + 1) s.cursor.next
  .ok ({ s with allowKey := false, cursor }.push (.scalar (String.ofList text) false))

def plainScalar (s : Scan) : Step := do
  let s ← s.savePending
  let (text, cursor, ended) := plainParts (s.flowLevel != 0) (s.indent + 1)
    (s.cursor.rest.length + 1) [] s.cursor false
  .ok ({ s with allowKey := ended, cursor }.push (.scalar (String.ofList text) true))

/-! ## Directives -/

def isNameChar (c : Char) : Bool := c.isAlphanum || c == '-' || c == '_'

/-- Nothing more stands in the line, or a blank and perhaps a comment. -/
def endsDirective : List Char → Bool
  | [] => true
  | c :: cs =>
    c == ' ' && match cs.dropWhile (· == ' ') with
      | [] => true
      | d :: _ => d == '#'

/-- The version that two numbers and a point between them write. -/
def version? (cs : List Char) : Option Token :=
  let major := cs.takeWhile Char.isDigit
  match cs.dropWhile Char.isDigit with
  | '.' :: ds =>
    if major.isEmpty || (ds.takeWhile Char.isDigit).isEmpty then none
    else if endsDirective (ds.dropWhile Char.isDigit) then
      some (.version (AlgebraBatch.Text.digitsToNat major))
    else none
  | _ => none

/-- The directive in a line, after its percent sign. -/
def directive? (line : List Char) : Option Token :=
  let name := line.takeWhile isNameChar
  let rest := line.dropWhile isNameChar
  if name.isEmpty || !(rest.isEmpty || rest.head? == some ' ') then none
  else match String.ofList name with
    | "YAML" => version? (rest.dropWhile (· == ' '))
    | "TAG" => none
    | _ => some .directive

def directiveMark (s : Scan) (cs : List Char) : Step := do
  let line := cs.takeWhile (!isLineBreak ·)
  match directive? line with
  | none => .error .malformed
  | some t =>
    let s ← (s.unwind (-1)).dropPending
    .ok (({ s with allowKey := false }.forward (line.length + 1)).push t)

/-! ## The next token -/

/-- The characters that begin no plain scalar by themselves. -/
def indicators : List Char :=
  ['-', '?', ':', ',', '[', ']', '\x7b', '\x7d', '#', '&', '*', '!', '|', '>', '\'', '"', '%',
    '@', '\u0060']

def startsPlain (inFlow : Bool) : List Char → Bool
  | [] => false
  | c :: cs =>
    if atGap [c] then false
    else if indicators.contains c then
      !atGap cs && (c == '-' || (!inFlow && (c == '?' || c == ':')))
    else true

/-- Goes over blanks, comments and line breaks. -/
def skipGap : Nat → Scan → Scan
  | 0, s => s
  | fuel + 1, s =>
    let cur := s.cursor.skipWhile (· == ' ')
    let cur := if cur.peek? == some '#' then cur.skipWhile (!isLineBreak ·) else cur
    match cur.lineBreak? with
    | none => { s with cursor := cur }
    | some (_, cur) =>
      skipGap fuel { s with cursor := cur, allowKey := s.allowKey || s.flowLevel == 0 }

/-- Reads the token at the cursor. -/
def token (s : Scan) (c : Char) (cs : List Char) : Step :=
  let inFlow := s.flowLevel != 0
  if s.cursor.column == 0 && s.cursor.atDocumentMark then
    s.documentMark (if c == '-' then .documentStart else .documentEnd)
  else if c == '%' && s.cursor.column == 0 then s.directiveMark cs
  else if c == '[' then s.flowStart .flowSequenceStart
  else if c == '\x7b' then s.flowStart .flowMappingStart
  else if c == ']' then s.flowEnd .flowSequenceEnd
  else if c == '\x7d' then s.flowEnd .flowMappingEnd
  else if c == ',' then s.flowEntry
  else if c == '-' && atGap cs then s.blockEntry
  else if c == '?' && (inFlow || atGap cs) then s.keyMark
  else if c == ':' && (inFlow || atGap cs) then s.valueMark
  else if c == '\'' then s.quotedScalar false
  else if c == '"' then s.quotedScalar true
  else if startsPlain inFlow (c :: cs) then s.plainScalar
  else .error .malformed

/-- The tokens before the first one that may still get a key mark before it. -/
def settled (s : Scan) : Array Token :=
  let waiting := s.pending.filter fun (_, p) => !s.isStale p
  s.tokens.extract 0 (waiting.foldl (fun n (_, p) => min n p.tokenNumber) s.tokens.size)

/-- Reads tokens up to the end of the text, or up to one that has no value. -/
def tokensFrom : Nat → Scan → Except Failure (Array Token)
  | 0, _ => .error .malformed
  | fuel + 1, start => do
    let s ← (skipGap (start.cursor.rest.length + 1) start).dropStale
    let s := s.unwind s.cursor.column
    match s.cursor.rest with
    | [] =>
      let s ← (s.unwind (-1)).dropPending
      .ok s.tokens
    | c :: cs =>
      match s.token c cs with
      | .ok s => tokensFrom fuel s
      | .error (.fault f) => .ok (start.settled.push (.fault f))
      | .error .malformed => .error .malformed

end Scan

/-- The tokens of a text. A byte order mark at its beginning does not count. -/
def ofText (text : String) : Except Failure (List Token) :=
  let cs := text.toList
  if cs.all isAllowed then
    let start : Cursor := { rest := cs }
    let start := if start.peek? == some '\ufeff' then start.next else start
    (Scan.tokensFrom (cs.length + 1) { cursor := start }).map Array.toList
  else .error .malformed

end Token

end AlgebraBatch.Yaml
