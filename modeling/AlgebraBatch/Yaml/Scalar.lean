import AlgebraBatch.Decimal.Written
import AlgebraBatch.Text.Quoted
import AlgebraBatch.Yaml.Resolve

/-!
# Scalars as they are written

`Scalar.analyse` looks at the characters of a text and says in which styles it may be written;
`Scalar.style` chooses the plain style where it would be read back as what it is, else single
quotes, else double quotes.
-/

namespace AlgebraBatch.Yaml

open AlgebraBatch.Text

inductive Style where
  | plain
  | single
  | double
  deriving DecidableEq, Repr

/-- A scalar before it is written: its text, the type it has, and the number of characters of the
type's name. -/
structure Scalar where
  text : String
  type : ScalarType
  nameLength : Nat

namespace Scalar

/-- The text of a float. An exponent stands after a point, since a float needs one. -/
def floatText (x : Binary64) : String :=
  match x with
  | .nan => ".nan"
  | .infinite negative => if negative then "-.inf" else ".inf"
  | x =>
    let s := (Decimal.plainStyle.write x).toList
    if s.contains '.' then String.ofList s
    else
      String.ofList (s.takeWhile (· != 'e')) ++ ".0" ++ String.ofList (s.dropWhile (· != 'e'))

/-- The scalar of a value that is neither a list nor a map. -/
def ofDatum? : Datum → Option Scalar
  | .null => some ⟨"null", .null, 6⟩
  | .bool b => some ⟨if b then "true" else "false", .bool, 6⟩
  | .int n => some ⟨toString n, .int, 5⟩
  | .float x => some ⟨floatText x, .float, 7⟩
  | .str s => some ⟨s, .text, 5⟩
  | .moment m => some ⟨m.text, .date, 11⟩
  | _ => none

/-- The line breaks that a scalar may hold as they are. -/
def isBreak (c : Char) : Bool :=
  c == '\n' || c == '\u0085' || c == '\u2028' || c == '\u2029'

/-- A blank, a line break or the end of the text comes next. -/
def atGap : List Char → Bool
  | [] => true
  | c :: _ => c == '\x00' || c == ' ' || c == '\t' || c == '\r' || isBreak c

/-- Characters that need an escape. -/
def isSpecial (c : Char) : Bool :=
  let n := c.toNat
  !(c == '\n' || (0x20 ≤ n && n ≤ 0x7e) || n == 0x85 ||
    (((0xa0 ≤ n && n ≤ 0xd7ff) || (0xe000 ≤ n && n ≤ 0xfffd) || (0x10000 ≤ n && n < 0x10ffff)) &&
      n != 0xfeff))

/-- The characters that stand for something else at the beginning of a scalar. -/
def leadingIndicators : List Char :=
  ['#', ',', '[', ']', '\x7b', '\x7d', '&', '*', '!', '|', '>', '\'', '"', '%', '@', '\u0060']

/-- An indicator of block context at the beginning of a text. -/
def leadsWithIndicator : List Char → Bool
  | [] => false
  | c :: cs =>
    leadingIndicators.contains c || ((c == '?' || c == ':' || c == '-') && atGap cs)

/-- An indicator of block context inside a text: a colon before a gap, or a hash after one. -/
def hasIndicator (afterGap : Bool) : List Char → Bool
  | [] => false
  | c :: cs => (c == ':' && atGap cs) || (c == '#' && afterGap) || hasIndicator (atGap [c]) cs

def startsDocument : List Char → Bool
  | '-' :: '-' :: '-' :: _ => true
  | '.' :: '.' :: '.' :: _ => true
  | _ => false

/-- A character of the first class right before one of the second. -/
def hasPair (p q : Char → Bool) : List Char → Bool
  | c :: d :: cs => (p c && q d) || hasPair p q (d :: cs)
  | _ => false

def isSpace (c : Char) : Bool := c == ' '

/-- A blank or a line break. -/
def isEdgeGap (c : Char) : Bool := isSpace c || isBreak c

def isMultiline (cs : List Char) : Bool := cs.any isBreak

def allowsPlain (cs : List Char) : Bool :=
  match cs with
  | [] => true
  | c :: rest =>
    !(isEdgeGap c || isEdgeGap (cs.getLastD c) || cs.any isSpecial || isMultiline cs ||
      startsDocument cs || leadsWithIndicator cs || hasIndicator (atGap [c]) rest)

def allowsSingle (cs : List Char) : Bool :=
  !(cs.any isSpecial || hasPair isBreak isSpace cs || hasPair isSpace isBreak cs)

/-- The scalar is read back as of its type when it is written plain. -/
def isPlainFaithful (s : Scalar) : Bool := resolve s.text == s.type

/-- The style of a scalar. A key on one line must not be empty or have line breaks if it is
plain. -/
def style (s : Scalar) (simpleKey : Bool) : Style :=
  let cs := s.text.toList
  if s.isPlainFaithful && !(simpleKey && (cs.isEmpty || isMultiline cs)) && allowsPlain cs then
    .plain
  else if allowsSingle cs && !(simpleKey && isMultiline cs) then .single
  else .double

/-- A key that can stand on one line with its value. -/
def isSimpleKey (s : Scalar) : Bool :=
  let cs := s.text.toList
  cs.length + s.nameLength < 128 && !cs.isEmpty && !isMultiline cs

end Scalar

end AlgebraBatch.Yaml
