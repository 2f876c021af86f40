import AlgebraBatch.Decimal.Binary64
import AlgebraBatch.Text.Blank
import AlgebraBatch.Text.Digit
import AlgebraBatch.Text.Quoted
import AlgebraBatch.Text.Search

/-!
# Numerals

`readInteger` and `readFloat` read a numeral that may stand between blanks, have a sign, use the
decimal digits of any script, and have single underscores between digits. An integer has at most
`maxDigits` digits. `NumeralFault` says what is wrong with a text that is no numeral.
-/

namespace AlgebraBatch

open AlgebraBatch.Text

inductive NumeralFault where
  | noInteger (text : String)
  | tooManyDigits (count : Nat)
  | noFloat (text : String)
  deriving DecidableEq, Repr

namespace Numeral

/-- The most digits that an integer numeral may have. -/
def maxDigits : Nat := 4300

end Numeral

def NumeralFault.message : NumeralFault → String
  | .noInteger text =>
    "invalid literal for int() with base 10: " ++ takeFirst 200 (quoted text)
  | .tooManyDigits count =>
    "Exceeds the limit (" ++ toString Numeral.maxDigits ++
      " digits) for integer string conversion: value has " ++ toString count ++
      " digits; use sys.set_int_max_str_digits() to increase the limit"
  | .noFloat text => "could not convert string to float: " ++ quoted text

namespace Numeral

def digitChar (d : Nat) : Char := Char.ofNat (48 + d)

/-- The characters with ASCII digits for digits and spaces for blanks; a character that is neither
of these nor ASCII ends the text with a question mark, which no numeral has. -/
def transcribe : List Char → List Char
  | [] => []
  | c :: cs =>
    if c.toNat < 127 then c :: transcribe cs
    else if isBlank c then ' ' :: transcribe cs
    else match digitValue? c with
      | some d => digitChar d :: transcribe cs
      | none => ['?']

/-- The text in ASCII. One that is ASCII already stays as it is. -/
def asciiForm (cs : List Char) : List Char :=
  if cs.all (·.toNat < 128) then cs else transcribe cs

/-- A sign, if there is one, and the rest. -/
def takeSign : List Char → Bool × List Char
  | '-' :: cs => (true, cs)
  | '+' :: cs => (false, cs)
  | cs => (false, cs)

/-- Digits with single underscores between them. -/
def isGrouped : List Char → Bool
  | [] => false
  | [c] => c.isDigit
  | c :: d :: cs => c.isDigit && if d == '_' then isGrouped cs else isGrouped (d :: cs)

def readInteger (text : String) : Except NumeralFault Int :=
  let (negative, cs) := takeSign ((asciiForm text.toList).dropWhile isAsciiBlank)
  let isPart (c : Char) : Bool := c.isDigit || c == '_'
  let run := cs.takeWhile isPart
  let digits := run.filter Char.isDigit
  if !isGrouped run then .error (.noInteger text)
  else if maxDigits < digits.length then .error (.tooManyDigits digits.length)
  else if !(cs.dropWhile isPart).all isAsciiBlank then .error (.noInteger text)
  else
    let n : Int := digitsToNat digits
    .ok (if negative then -n else n)

/-- Removes the underscores, each of which must stand between digits. -/
def ungroup? (afterDigit : Bool) : List Char → Option (List Char)
  | [] => some []
  | '_' :: d :: cs =>
    if afterDigit && d.isDigit then (ungroup? true cs).map (d :: ·) else none
  | c :: cs => if c == '_' then none else (ungroup? c.isDigit cs).map (c :: ·)

/-- The exponent part of a decimal, zero if there is none. -/
def readExponent? : List Char → Option Int
  | [] => some 0
  | c :: cs =>
    if c == 'e' || c == 'E' then
      let (negative, ds) := takeSign cs
      if ds.isEmpty || !ds.all Char.isDigit then none
      else some (if negative then -(digitsToNat ds : Int) else digitsToNat ds)
    else none

def afterPoint : List Char → List Char × List Char
  | '.' :: cs => (cs.takeWhile Char.isDigit, cs.dropWhile Char.isDigit)
  | cs => ([], cs)

def readDecimal? (cs : List Char) : Option Binary64 :=
  let (negative, cs) := takeSign cs
  match String.ofList (cs.map Char.toLower) with
  | "inf" | "infinity" => some (.infinite negative)
  | "nan" => some .nan
  | _ =>
    let whole := cs.takeWhile Char.isDigit
    let (places, rest) := afterPoint (cs.dropWhile Char.isDigit)
    if whole.isEmpty && places.isEmpty then none
    else (readExponent? rest).map fun e =>
      .ofDecimal negative (digitsToNat (whole ++ places)) (e - places.length)

def readFloat (text : String) : Except NumeralFault Binary64 :=
  let cs := (asciiForm text.toList).dropWhile isAsciiBlank
  match (ungroup? false (dropRightWhile isAsciiBlank cs)).bind readDecimal? with
  | some x => .ok x
  | none => .error (.noFloat text)

end Numeral

end AlgebraBatch
