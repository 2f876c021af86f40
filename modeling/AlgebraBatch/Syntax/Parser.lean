import AlgebraBatch.Syntax.Grammar
import AlgebraBatch.Text.Lines

/-!
# Parsing a text

`parse` reads a whole text as one expression and gives its syntax tree. A text is rejected either
because something is left over after an expression, or because no expression stands there; then the
furthest place at which a terminal was refused is reported, with the characters that would have
been accepted there, or with the first pattern refused if no single character was tried. The message
of a rejection names the place, and `findPlace?` gets it back from there. A text that the grammar
accepts can still hold an integer with too many digits.
-/

namespace AlgebraBatch.Syntax

open AlgebraBatch.Text

/-- Why a text is rejected. Places are given by the number of characters from there to the end. -/
inductive Rejection where
  | leftover (left : Nat)
  | expected (left : Nat) (literals : List Char)
  | expectedPattern (left : Nat) (pattern : Pattern)
  deriving DecidableEq, Repr

inductive ParseFault where
  | rejected (text : List Char) (why : Rejection)
  | overlong (digits : Nat)
  deriving DecidableEq, Repr

def Rejection.left : Rejection → Nat
  | leftover n => n
  | expected n _ => n
  | expectedPattern n _ => n

/-- The offset of the place in the text. -/
def Rejection.offset (text : List Char) (why : Rejection) : Nat :=
  text.length - why.left

/-- The line and the column of an offset. -/
def positionAt (text : List Char) (offset : Nat) : Nat × Nat :=
  lineColumn (text.take offset)

/-- The longest beginning with at most `budget` bytes. -/
def takeBytes (budget : Nat) : List Char → List Char
  | [] => []
  | c :: cs => if c.utf8Size ≤ budget then c :: takeBytes (budget - c.utf8Size) cs else []

/-- Punctuation and blanks of ASCII end the word that a message shows. -/
def isWordLimit (c : Char) : Bool :=
  isAsciiBlank c || (0x21 ≤ c.toNat && c.toNat < 0x7f && !c.isAlphanum)

/-- What a message calls unexpected: a punctuation character or a word of at most 32 characters. -/
def unexpected : List Char → List Char
  | [] => []
  | c :: cs =>
    if isWordLimit c then [c] else ((c :: cs).takeWhile fun d => !isWordLimit d).take 32

def singleQuoted (cs : List Char) : String :=
  "'" ++ String.ofList cs ++ "'"

/-- What the message says of the end of the text, if the place is there. -/
def endNote (text : List Char) (left : Nat) : String :=
  if left == 0 then "Unexpected end of input while parsing " ++ singleQuoted text else ""

def Rejection.detail (text : List Char) : Rejection → String
  | leftover left =>
    let rest := (text.drop (text.length - left)).takeWhile (· != '\n')
    "Rule 'root' parsed successfully, but failed to consume the entire input. " ++
      "Unconsumed text begins with: '" ++ String.ofList (takeBytes 20 rest) ++ "...'"
  | expected left literals =>
    let wanted := "Expected one of: " ++ joinWith ", " (literals.map fun c => singleQuoted [c])
    if left == 0 then "Unexpected end of input. " ++ wanted ++ ". " ++ endNote text left
    else
      "Unexpected " ++ singleQuoted (unexpected (text.drop (text.length - left))) ++ ". " ++ wanted
  | expectedPattern left p =>
    "Expected regex matching r\"" ++ p.source ++ "\"" ++
      if left == 0 then ". " ++ endNote text left else ""

def placeText (position : Nat × Nat) : String :=
  " in input text at L" ++ toString position.1 ++ ":C" ++ toString position.2

def Rejection.message (text : List Char) (why : Rejection) : String :=
  let place := placeText (positionAt text (why.offset text))
  match why with
  | leftover _ => "ParseError: Parse Error" ++ place ++ ". " ++ why.detail text
  | _ => "ParseError: Syntax error" ++ place ++ " while parsing rule 'root': " ++ why.detail text

/-- The number that the digits at the beginning of a text write, and the rest of the text. -/
def leadingNumber? (s : List Char) : Option (Nat × List Char) :=
  if startsWithDigit s then some (digitsToNat (s.takeWhile isDecimalDigit), dropDigits s) else none

/-- The line and the column that a text begins with, written as in a message. -/
def leadingPlace? : List Char → Option (Nat × Nat)
  | 'a' :: 't' :: ' ' :: 'L' :: s =>
    match leadingNumber? s with
    | some (line, ':' :: 'C' :: s') => (leadingNumber? s').map fun (column, _) => (line, column)
    | _ => none
  | _ => none

/-- The first line and column that stand in a text. -/
def findPlace? : List Char → Option (Nat × Nat)
  | [] => none
  | c :: cs => (leadingPlace? (c :: cs)).or (findPlace? cs)

/-- The characters among refused terminals, each once. -/
def literalsOf (ms : List (Peg.Miss Terminal)) : List Char :=
  (ms.filterMap fun m => match m.token with
    | .literal c => some c
    | .pattern _ => none).eraseDups

def firstPattern? (ms : List (Peg.Miss Terminal)) : Option Pattern :=
  ms.findSome? fun m => match m.token with
    | .literal _ => none
    | .pattern p => some p

/-- The rejection that refused terminals call for. -/
def Rejection.ofMisses (ms : List (Peg.Miss Terminal)) : Rejection :=
  let far := Peg.furthest ms
  let left := far.head?.elim 0 (·.left)
  match literalsOf far, firstPattern? far with
  | [], some p => .expectedPattern left p
  | literals, _ => .expected left literals

/-- The syntax tree of a text that is one expression. -/
def parseTree (s : List Char) : Except Rejection Tree :=
  match Peg.run grammar (depthBound s) Reads.root s with
  | .done t [] => .ok t
  | .done _ rest => .error (.leftover rest.length)
  | _ => .error (.ofMisses (Peg.misses grammar (depthBound s) Reads.root s))

def parse (text : String) : Except ParseFault Tree :=
  match parseTree text.toList with
  | .error why => .error (.rejected text.toList why)
  | .ok t =>
    match t.overlong? with
    | some digits => .error (.overlong digits)
    | none => .ok t

/-- The expression of a text. -/
def parseExpr (text : String) : Except ParseFault Expr :=
  (parse text).map Tree.expr

end AlgebraBatch.Syntax
